import LayeredConfig.Reading
import LayeredConfig.Redaction

/-!
# Configurations

A configuration is a tree whose root is a map, with a rule for its secrets and the parsers for typed
reads. It is never changed; every edit makes a new one.

This module holds the type, its making from values, and the views of its leaves.
-/

namespace LayeredConfig

/-- A tree with a rule for its secrets and parsers for its values. -/
structure Config extends Document where
  parsers : Registry

/-- The tree of a whole document, which has to be a mapping. Null is the empty one. -/
def Value.toRoot : Value → Result Node
  | .null => .ok .empty
  | .mapping entries => (Value.mapping entries).toNode .root
  | .config d => .ok d.root
  | other => .error ((Error.valueConversion "(root)" "mapping" other.typeName).withHelp
      "A configuration document must be a mapping at the top level")

namespace Config

/-- The configuration without values, with the usual parsers and secret names. -/
def empty : Config where
  root := .empty
  redactor := .standard
  parsers := .builtins

/-- The same configuration with another tree. -/
def withRoot (c : Config) (root : Node) : Config :=
  { c with root }

/-- The configuration of a nested value. -/
def ofValue (value : Value) : Result Config := do
  return empty.withRoot (← value.toRoot)

/-- Is something at the path? A text that is no path leads to nothing. -/
def contains (c : Config) (path : String) : Bool :=
  match Path.parse path with
  | .ok p => (c.root.get? p).isSome
  | .error _ => false

/-- Has the configuration no entries? -/
def isEmpty (c : Config) : Bool :=
  c.root.isEmpty

/-- All leaves with their paths, in the order of the path texts. -/
def entries (c : Config) : List (Path × Scalar) :=
  (c.root.leaves .root).mergeSort fun x y => x.1.text ≤ y.1.text

/-- The values of all leaves under their path texts, in the order of these. -/
def flat (c : Config) : Entries Value :=
  Entries.ofList (c.entries.map fun (p, s) => (p.text, Value.literal s.plain))

/-- The configuration as a nested value, with its secrets. -/
def toValue (c : Config) : Value :=
  c.root.toValue

/-- The entries of the root, with their secrets. -/
def toMap (c : Config) : Entries Value :=
  match c.root with
  | .map es => Node.entriesToValue es
  | _ => []

/-- The configuration with its secrets replaced. -/
def hideSecrets (c : Config) : Config :=
  c.withRoot c.redacted

/-- The text of a configuration, with its secrets hidden. -/
def display (c : Config) : String :=
  c.redacted.display

/-- The configuration as a value to splice in. -/
def asValue (c : Config) : Value :=
  .config c.toDocument

/-- Have two configurations equal trees? The order of the entries of a map does not count. -/
def alike (c d : Config) : Bool :=
  c.root.alike d.root

end Config

end LayeredConfig
