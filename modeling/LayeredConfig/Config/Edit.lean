import LayeredConfig.Config
import LayeredConfig.Resolution

/-!
# Editing configurations

Every edit gives a new configuration with the same parsers and the same rule for secrets. Paths are
given as texts and have to start with a name. A null is never written.
-/

namespace LayeredConfig.Config

/-- Writes `value` at a path, in place of what is there. -/
def put (c : Config) (path : String) (value : Value) : Result Config := do
  let p ← Path.parseAbsolute path
  if value.isNull then return c
  else return c.withRoot (← c.root.putValue .root p value)

/-- Writes `value` at a path where nothing is. List elements are never made in this way. -/
def putIfMissing (c : Config) (path : String) (value : Value) : Result Config := do
  let p ← Path.parseAbsolute path
  if value.isNull then return c
  else return c.withRoot (← c.root.fillValue .root p value)

/-- The configuration with the values written at their paths, in order, into an empty one. -/
def ofPairs (pairs : List (String × Value)) : Result Config :=
  pairs.foldlM (fun c (path, value) => c.put path value) empty

/-- The configuration where the values of `d` fill what is missing. -/
def withDefaults (c d : Config) : Config :=
  c.withRoot (c.root.withDefaults d.root)

/-- The configuration where the values of `d` mask those of `c`. -/
def withValues (c d : Config) : Config :=
  c.withRoot (d.root.withDefaults c.root)

/-- Merges a mapping whose values mask those that are there. -/
def putAll (c : Config) (values : Value) : Result Config := do
  return c.withRoot ((← values.toRoot).withDefaults c.root)

/-- Merges a mapping whose values fill what is missing. -/
def putAllIfMissing (c : Config) (values : Value) : Result Config := do
  return c.withRoot (c.root.withDefaults (← values.toRoot))

/-- Takes away what is at a path. -/
def remove (c : Config) (path : String) (o : Pruning) : Result Config := do
  let p ← Path.parseAbsolute path
  return c.withRoot ((c.root.remove p o).getD .empty)

/-- Takes away what is at a path, and the containers that this leaves empty. -/
def without (c : Config) (path : String) : Result Config :=
  c.remove path .both

section Leaves

universe u

variable {m : Type → Type u} [Monad m]

/-- Replaces every leaf. -/
def mapValues (c : Config) (f : Path → Scalar → m Scalar) : m Config := do
  return c.withRoot (← c.root.mapLeaves f .root)

/-- Keeps only some of the leaves. -/
def filterValues (c : Config) (keep : Path → Scalar → m Bool) (o : Pruning) : m Config := do
  return c.withRoot ((← c.root.filterLeaves keep .root o).getD .empty)

end Leaves

/-- Drops empty maps and lists. -/
def removeEmpty (c : Config) : Config :=
  Id.run (c.filterValues (fun _ _ => pure true) .both)

/-- Resolves all expressions. References see the given values in front of the configuration. -/
def resolve (c values : Config) (policy : UnresolvedPolicy) : Result Config := do
  return c.withRoot (← resolveTree c.root values.root policy)

/-- Adds a parser, which is asked after those that are there. -/
def addParser (c : Config) (parser : ValueParser) : Config :=
  { c with parsers := c.parsers ++ [parser] }

/-- Replaces all parsers. -/
def setParsers (c : Config) (parsers : Registry) : Config :=
  { c with parsers }

/-- Replaces the rule for secrets. -/
def setRedactor (c : Config) (redactor : Redactor) : Config :=
  { c with redactor }

end LayeredConfig.Config
