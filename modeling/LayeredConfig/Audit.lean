import LayeredConfig.Config.Edit
import LayeredConfig.Config.Read

/-!
# Audits

An audit keeps a configuration together with the paths that were read from it. Reading a path counts
for everything below it, so whoever takes a part of a configuration has read all of it. What is left
can be reported at the end, which finds misspelt and forgotten settings.
-/

namespace LayeredConfig

/-- A configuration with the paths that were read from it. -/
structure Audit where
  config : Config
  read : List Path

namespace Audit

/-- The audit of a configuration from which nothing was read. -/
def start (config : Config) : Audit :=
  ⟨config, []⟩

/-- Records that a path was read. Texts that are no paths, and paths to nothing, do not count. -/
def mark (a : Audit) (path : String) : Audit :=
  match Path.parse path with
  | .ok p => if (a.config.root.get? p).isSome then { a with read := p :: a.read } else a
  | .error _ => a

/-- Was the leaf, or something above it, read? -/
def isRead (a : Audit) (leaf : Path) : Bool :=
  a.read.any leaf.startsWith

/-- The values that were not read, without the containers that are empty then. -/
def unused (a : Audit) : Config :=
  Id.run (a.config.filterValues (fun p _ => pure !a.isRead p) .both)

/-- Fails if a value was not read, with the first paths among the unused values. -/
def ensureAllUsed (a : Audit) : Result Unit :=
  match a.unused.entries.map fun leaf => leaf.1.text with
  | [] => .ok ()
  | paths => .error (.unusedValues paths)

/-- Reads from the configuration and records the path, whatever the result. -/
def reading {α : Type} (a : Audit) (path : String) (read : Config → String → Result α) :
    Result α × Audit :=
  (read a.config path, a.mark path)

end Audit

end LayeredConfig
