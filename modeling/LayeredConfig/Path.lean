/-!
# Paths

A path is the list of steps that leads from the root of a configuration tree to one of its nodes. A
step names an entry of a map or counts the elements of a list. The empty path is the root.

A path has a text: names are joined by points and indexes stand in brackets, as in
`servers[0].host`. Reading that text is the matter of `LayeredConfig.Path.Parser`.
-/

namespace LayeredConfig

/-- One step down a tree. -/
inductive Step where
  /-- To the entry of a map with this name. -/
  | name (name : String)
  /-- To the element of a list at this position. -/
  | index (position : Nat)
deriving DecidableEq, Repr

/-- The steps from the root of a tree to a node. -/
abbrev Path := List Step

namespace Step

/-- Does the step name an entry of a map? -/
def isName : Step → Bool
  | .name _ => true
  | .index _ => false

/-- Does the step count the elements of a list? -/
def isIndex : Step → Bool
  | .name _ => false
  | .index _ => true

/-- The name of a step to an entry of a map. -/
def name? : Step → Option String
  | .name n => some n
  | .index _ => none

/-- The position of a step to an element of a list. -/
def index? : Step → Option Nat
  | .name _ => none
  | .index i => some i

/-- A step as it is written after another one. -/
def text : Step → List Char
  | .name n => '.' :: n.toList
  | .index i => '[' :: (Nat.toDigits 10 i ++ [']'])

end Step

namespace Path

/-- The path of the root. -/
def root : Path := []

/-- Is it the path of the root? -/
def isRoot (p : Path) : Bool :=
  p.isEmpty

/-- The path of the entry `name` of the node at `p`. -/
def key (p : Path) (name : String) : Path :=
  p ++ [.name name]

/-- The path of the element at `position` of the node at `p`. -/
def index (p : Path) (position : Nat) : Path :=
  p ++ [.index position]

/-- The names on the way, in order. -/
def names (p : Path) : List String :=
  p.filterMap Step.name?

/-- Does `p` lead through the node at `start`? -/
def startsWith (p start : Path) : Bool :=
  start.isPrefixOf p

/-- The characters of the text of a path. A name at the start has no point before it. -/
def chars : Path → List Char
  | .name n :: rest => n.toList ++ rest.flatMap Step.text
  | p => p.flatMap Step.text

/-- The text of a path. -/
def text (p : Path) : String :=
  String.ofList p.chars

end Path

end LayeredConfig
