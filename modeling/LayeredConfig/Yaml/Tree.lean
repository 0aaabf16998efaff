import LayeredConfig.Yaml.Token

/-!
# Trees of YAML documents

The nodes of a document, with their anchors and tags. `Tree.ofTokens?` builds the tree of a row of
tokens, which has to be one document: what is not written is an empty scalar, and nothing may follow but
marks of the end.
-/

namespace LayeredConfig.Yaml

/-- What can be said in front of a node. -/
structure Properties (α : Type) where
  anchor? : Option α
  tag? : Option String

/-- A node of a document, whose anchors are of type `α`. -/
inductive Tree (α : Type) where
  /-- The node with the anchor stands here, too. -/
  | alias (anchor : α)
  | scalar (properties : Properties α) (plain : Bool) (text : String)
  | list (properties : Properties α) (items : List (Tree α))
  | map (properties : Properties α) (entries : List (Tree α × Tree α))

namespace Tree

/-- What stands where nothing is written. -/
def blank {α : Type} : Tree α :=
  .scalar ⟨none, none⟩ true ""

/-- The tags that start with a handle start with a text. -/
abbrev Handles := List (String × String)

/-- The handles that need no directive. -/
def standardHandles : Handles :=
  [("!", "!"), ("!!", "tag:yaml.org,2002:")]

/-- The whole tag. There is none if no directive explains the handle. -/
def tag? (handles : Handles) (handle suffix : String) : Option String :=
  if handle.isEmpty then some suffix
  else (handles.lookup handle).map (· ++ suffix)

/-- Takes anchor and tag off, in either order. -/
def readProperties (handles : Handles) :
    List Token → Option (Properties String × List Token)
  | .anchor name :: .tag handle suffix :: rest | .tag handle suffix :: .anchor name :: rest => do
    return (⟨name, ← tag? handles handle suffix⟩, rest)
  | .anchor name :: rest => some (⟨name, none⟩, rest)
  | .tag handle suffix :: rest => do return (⟨none, ← tag? handles handle suffix⟩, rest)
  | rest => some (⟨none, none⟩, rest)

mutual

/-- Reads a node. A list or a map by indentation may stand only where `block` holds, a list that is not
indented only where `unindented` holds. -/
def readNode (fuel : Nat) (handles : Handles) (block unindented : Bool) (ts : List Token) :
    Option (Tree String × List Token) :=
  match fuel with
  | 0 => none
  | fuel + 1 => do
    if let .alias name :: rest := ts then return (.alias name, rest)
    let (properties, ts) ← readProperties handles ts
    match ts with
    | .scalar plain text :: rest => return (.scalar properties plain text, rest)
    | .flowList :: rest =>
      let (items, rest) ← readFlowItems fuel handles true rest
      return (.list properties items, rest)
    | .flowMap :: rest =>
      let (entries, rest) ← readFlowEntries fuel handles true rest
      return (.map properties entries, rest)
    | ts =>
      match block, unindented, ts with
      | _, true, .item :: _ =>
        let (items, rest) ← readItems fuel handles ts
        return (.list properties items, rest)
      | true, _, .blockList :: rest =>
        match ← readItems fuel handles rest with
        | (items, .blockEnd :: rest) => return (.list properties items, rest)
        | _ => none
      | true, _, .blockMap :: rest =>
        let (entries, rest) ← readEntries fuel handles rest
        return (.map properties entries, rest)
      | _, _, _ =>
        if properties.anchor?.isSome || properties.tag?.isSome then
          return (.scalar properties true "", ts)
        else none

/-- Reads a node, or a blank one if the next token is among those that end it. -/
def readNodeUnless (fuel : Nat) (handles : Handles) (block unindented : Bool) (ends : List Token)
    (ts : List Token) : Option (Tree String × List Token) :=
  match fuel with
  | 0 => none
  | fuel + 1 =>
    if ts.head?.any ends.contains then some (blank, ts)
    else readNode fuel handles block unindented ts

/-- Reads the items of a list by indentation. -/
def readItems (fuel : Nat) (handles : Handles) (ts : List Token) :
    Option (List (Tree String) × List Token) :=
  match fuel with
  | 0 => none
  | fuel + 1 =>
    match ts with
    | .item :: rest => do
      let (t, rest) ← readNodeUnless fuel handles true false [.item, .key, .value, .blockEnd] rest
      let (items, rest) ← readItems fuel handles rest
      return (t :: items, rest)
    | rest => some ([], rest)

/-- Reads the entries of a map by indentation up to its end. -/
def readEntries (fuel : Nat) (handles : Handles) (ts : List Token) :
    Option (List (Tree String × Tree String) × List Token) :=
  match fuel with
  | 0 => none
  | fuel + 1 =>
    match ts with
    | .key :: rest => do
      let ends := [.key, .value, .blockEnd]
      let (key, rest) ← readNodeUnless fuel handles true true ends rest
      let (value, rest) ← match rest with
        | .value :: rest => readNodeUnless fuel handles true true ends rest
        | rest => some (blank, rest)
      let (entries, rest) ← readEntries fuel handles rest
      return ((key, value) :: entries, rest)
    | .blockEnd :: rest => some ([], rest)
    | _ => none

/-- Reads the items of a list in brackets up to its end. An item can be a map of one entry without
brackets of its own; its key has to be written. -/
def readFlowItems (fuel : Nat) (handles : Handles) (first : Bool) (ts : List Token) :
    Option (List (Tree String) × List Token) :=
  match fuel with
  | 0 => none
  | fuel + 1 => do
    let ts ← match first, ts with
      | _, .flowListEnd :: _ => some ts
      | true, ts => some ts
      | false, .comma :: rest => some rest
      | false, _ => none
    match ts with
    | .flowListEnd :: rest => return ([], rest)
    | .key :: rest =>
      let (key, rest) ← readNode fuel handles false false rest
      let (value, rest) ← match rest with
        | .value :: rest => readNodeUnless fuel handles false false [.comma, .flowListEnd] rest
        | rest => some (blank, rest)
      let (items, rest) ← readFlowItems fuel handles false rest
      return (.map ⟨none, none⟩ [(key, value)] :: items, rest)
    | ts =>
      let (t, rest) ← readNode fuel handles false false ts
      let (items, rest) ← readFlowItems fuel handles false rest
      return (t :: items, rest)

/-- Reads the entries of a map in brackets up to its end. -/
def readFlowEntries (fuel : Nat) (handles : Handles) (first : Bool) (ts : List Token) :
    Option (List (Tree String × Tree String) × List Token) :=
  match fuel with
  | 0 => none
  | fuel + 1 => do
    let ts ← match first, ts with
      | _, .flowMapEnd :: _ => some ts
      | true, ts => some ts
      | false, .comma :: rest => some rest
      | false, _ => none
    match ts with
    | .flowMapEnd :: rest => return ([], rest)
    | .key :: rest =>
      let (key, rest) ←
        readNodeUnless fuel handles false false [.value, .comma, .flowMapEnd] rest
      let (value, rest) ← match rest with
        | .value :: rest => readNodeUnless fuel handles false false [.comma, .flowMapEnd] rest
        | rest => some (blank, rest)
      let (entries, rest) ← readFlowEntries fuel handles false rest
      return ((key, value) :: entries, rest)
    | ts =>
      let (key, rest) ← readNode fuel handles false false ts
      let (entries, rest) ← readFlowEntries fuel handles false rest
      return ((key, blank) :: entries, rest)

end

/-! ## Documents -/

/-- What the directives of a document say. -/
structure Directives where
  versioned : Bool
  handles : Handles

namespace Directives

/-- What holds without directives. -/
def none : Directives := ⟨false, []⟩

/-- Is there a directive? -/
def isNone (d : Directives) : Bool :=
  !d.versioned && d.handles.isEmpty

end Directives

/-- Reads the directives. The version has to be one of the known ones, and nothing may be said twice. -/
def readDirectives (d : Directives) : List Token → Option (Directives × List Token)
  | .version major minor :: rest =>
    if d.versioned || major ≠ 1 || !(minor = 1 || minor = 2) then none
    else readDirectives { d with versioned := true } rest
  | .tagRule handle start :: rest =>
    if (d.handles.lookup handle).isSome then none
    else readDirectives { d with handles := d.handles ++ [(handle, start)] } rest
  | rest => some (d, rest)

/-- Does the token start or end a document, or come before the start of one? -/
def isBoundary : Token → Bool
  | .version _ _ | .tagRule _ _ | .documentStart | .documentEnd => true
  | _ => false

/-- The tree of a document. A node hands on to readers of its parts, and each of them takes a token or
hands on to one that does, so three times the number of tokens bounds the depth. -/
def ofTokens? (ts : List Token) : Option (Tree String) := do
  let (directives, ts) ← readDirectives .none ts
  let handles := directives.handles ++ standardHandles
  let fuel := 3 * ts.length + 3
  let (t, rest) ← match ts with
    | [] => if directives.isNone then some (blank, []) else none
    | .documentStart :: rest =>
      if rest.head?.all isBoundary then some (blank, rest)
      else readNode fuel handles true false rest
    | ts => if directives.isNone then readNode fuel handles true false ts else none
  if (rest.dropWhile (· == .documentEnd)).isEmpty then return t else none

end Tree

end LayeredConfig.Yaml
