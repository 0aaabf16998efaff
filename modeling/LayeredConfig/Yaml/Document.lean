import LayeredConfig.Number.Integer
import LayeredConfig.Value
import LayeredConfig.Yaml.Layout
import LayeredConfig.Yaml.Plain
import LayeredConfig.Yaml.Tree

/-!
# Reading YAML documents

`Yaml.toValue?` gives the value of a document. Scalars without quotes are read as what they look like,
tags of the core schema force a type, and other tags are refused. Keys are strings, and one that repeats
keeps its first place and its last value. Collections may be nested 128 deep, counted with what aliases
stand for.
-/

namespace LayeredConfig.Yaml

namespace Tree

mutual

/-- The nodes of a tree, each before its parts. -/
def nodes {α : Type} (t : Tree α) : List (Tree α) :=
  match t with
  | .alias _ | .scalar _ _ _ => [t]
  | .list _ items => t :: nodesOfItems items
  | .map _ entries => t :: nodesOfEntries entries

/-- The nodes of the items of a list. -/
def nodesOfItems {α : Type} : List (Tree α) → List (Tree α)
  | [] => []
  | t :: rest => nodes t ++ nodesOfItems rest

/-- The nodes of the entries of a map. -/
def nodesOfEntries {α : Type} : List (Tree α × Tree α) → List (Tree α)
  | [] => []
  | (key, value) :: rest => nodes key ++ nodes value ++ nodesOfEntries rest

end

/-- The anchor of a node. -/
def anchor? {α : Type} : Tree α → Option α
  | .alias _ => none
  | .scalar p _ _ | .list p _ | .map p _ => p.anchor?

/-- The marks that it takes to write a node without its parts. -/
def marks {α : Type} : Tree α → Nat
  | .alias _ | .scalar _ _ _ => 1
  | .list _ _ | .map _ _ => 2

/-! ## Anchors -/

/-- The numbers of the names of anchors. -/
abbrev Names := List (String × Nat)

/-- The number of the anchor of a node. It is the number of names before it, so a name that comes again
shares the number with the next new name. -/
def numberProperties (p : Properties String) : StateT Names Option (Properties Nat) := do
  match p.anchor? with
  | none => return ⟨none, p.tag?⟩
  | some name =>
    let names ← get
    set ((name, names.length) :: names.filter (·.1 ≠ name))
    return ⟨some names.length, p.tag?⟩

mutual

/-- The tree with numbers for the names of anchors. There is none if an alias comes before its
anchor. -/
def number? : Tree String → StateT Names Option (Tree Nat)
  | .alias name => do .alias <$> ((← get).lookup name : Option Nat)
  | .scalar p plain text => do return .scalar (← numberProperties p) plain text
  | .list p items => do
    let p ← numberProperties p
    return .list p (← numberItems? items)
  | .map p entries => do
    let p ← numberProperties p
    return .map p (← numberEntries? entries)

/-- The items of a list with numbers for the names of anchors. -/
def numberItems? : List (Tree String) → StateT Names Option (List (Tree Nat))
  | [] => return []
  | t :: rest => do
    let t ← number? t
    return t :: (← numberItems? rest)

/-- The entries of a map with numbers for the names of anchors. -/
def numberEntries? : List (Tree String × Tree String) →
    StateT Names Option (List (Tree Nat × Tree Nat))
  | [] => return []
  | (key, value) :: rest => do
    let key ← number? key
    let value ← number? value
    return (key, value) :: (← numberEntries? rest)

end

/-! ## Values -/

/-- The value of an integer. Those beyond the range of integers are floats up to twice that range. -/
def integerValue? (n : Int) : Option Value :=
  if Number.IntKind.i64.Holds n then some (Value.literal (.integer (Int64.ofInt n)))
  else if Number.IntKind.u64.Holds n then some (Value.literal (.float (.ofInt n)))
  else none

/-- The value of a scalar without quotes. -/
def plainValue? (text : String) : Option Value :=
  match Yaml.plain text with
  | .null => some .null
  | .bool b => some (Value.literal (.bool b))
  | .integer n => integerValue? n
  | .float x => some (Value.literal (.float x))
  | .string => some (.string text)

/-- The tags of the core schema start with this. -/
def coreTag (name : String) : String :=
  "tag:yaml.org,2002:" ++ name

/-- Is it a tag that belongs to an application? -/
def isLocalTag (tag : String) : Bool :=
  tag.startsWith "!"

/-- The value of a scalar with a tag. -/
def taggedValue? (tag text : String) : Option Value :=
  if isLocalTag tag then none
  else if tag = coreTag "bool" then
    match Yaml.plain text with
    | .bool b => some (Value.literal (.bool b))
    | _ => none
  else if tag = coreTag "int" then (integer? text.toList).bind integerValue?
  else if tag = coreTag "float" then
    (float? text.toList).map fun x => Value.literal (.float x)
  else if tag = coreTag "null" then
    if Yaml.plain text = .null && !text.isEmpty then some .null else none
  else some (.string text)

/-- The value of a scalar. -/
def scalarValue? (p : Properties Nat) (plain : Bool) (text : String) : Option Value :=
  match p.tag?, plain with
  | some tag, _ => taggedValue? tag text
  | none, true => plainValue? text
  | none, false => some (.string text)

/-- How deep collections may be nested. -/
def maxDepth : Nat := 128

/-- How often aliases may be followed, for each mark of a document. -/
def aliasesPerMark : Nat := 100

/-- The node that the alias stands for: the last one with its number. -/
def followed? (all : List (Tree Nat)) (anchor : Nat) : StateT Nat Option (Tree Nat) := do
  match ← get with
  | 0 => failure
  | left + 1 =>
    set left
    (all.reverse.find? fun t => t.anchor? = some anchor : Option (Tree Nat))

/-- The value of a node in a document with the given nodes, inside of which collections may be nested
`depth` deep. The state is how often aliases may still be followed. -/
def value? (all : List (Tree Nat)) (depth : Nat) (t : Tree Nat) : StateT Nat Option Value := do
  let t ← match t with
    | .alias anchor => followed? all anchor
    | t => pure t
  match t, depth with
  | .scalar p plain text, _ => scalarValue? p plain text
  | .list p items, depth + 1 =>
    if p.tag?.any isLocalTag then failure
    else return .sequence (← items.mapM (value? all depth))
  | .map p entries, depth + 1 =>
    if p.tag?.any isLocalTag then failure
    else
      let pairs ← entries.mapM fun (key, value) => do
        let key ← value? all depth key
        let value ← value? all depth value
        match key with
        | .literal (.string text) => return (text, value)
        | _ => failure
      return .mapping (Entries.ofList pairs)
  | _, _ => failure

end Tree

/-- The value that a document stands for, if it is one. -/
def toValue? (text : String) : Option Value := do
  let ts ← Token.ofText? text
  let (t, _) ← (← Tree.ofTokens? ts).number?.run []
  let all := t.nodes
  let marks := (all.map Tree.marks).foldl (· + ·) 0
  let (value, _) ← (Tree.value? all Tree.maxDepth t).run (Tree.aliasesPerMark * marks)
  return value

end LayeredConfig.Yaml
