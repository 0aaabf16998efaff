import LayeredConfig.Node.Write
import LayeredConfig.Path.Parser
import LayeredConfig.Redactor

/-!
# Nested values

The values that callers and documents exchange with a configuration: null, literals, sequences,
mappings, and whole configurations to splice in. The keys of a mapping are path texts, so one key may
stand for several levels of the tree. Null is never stored: an entry or an element with it is left out.

* `Value.toNode` builds the tree of a value and `Node.toValue` reads it back;
* `Value.numEq` compares values by the numbers that they stand for.
-/

namespace LayeredConfig

/-- A tree together with the rule for its secrets. -/
structure Document where
  root : Node
  redactor : Redactor

/-- A nested value. -/
inductive Value where
  | null
  | literal (value : Literal)
  | sequence (items : List Value)
  | mapping (entries : List (String × Value))
  /-- A configuration to splice in as a map. -/
  | config (document : Document)

namespace Value

instance : Inhabited Value := ⟨.null⟩
instance : Coe Literal Value := ⟨.literal⟩

/-- A string value. -/
def string (text : String) : Value :=
  .literal (.string text)

/-- Is it null? -/
def isNull : Value → Bool
  | .null => true
  | _ => false

/-- The literal that the value is. -/
def literal? : Value → Option Literal
  | .literal l => some l
  | _ => none

/-- The name of the type of a value in messages. -/
def typeName : Value → String
  | .null => "null"
  | .literal l => l.typeName
  | .sequence _ => "sequence"
  | .mapping _ => "mapping"
  | .config _ => "config"

mutual

/-- Builds the tree of a value that will stand at `place`. -/
def toNode (place : Path) : Value → Result Node
  | .null => .error (.valueConversion place.text "a non-null value" "null")
  | .literal l => .ok (.leaf l)
  | .config d => .ok d.root
  | .mapping entries => entriesToNode place entries .empty
  | .sequence items => do
    let elements ← itemsToNodes place 0 items
    return .list elements

/-- Writes the entries of a mapping one after the other into a tree. -/
def entriesToNode (place : Path) : List (String × Value) → Node → Result Node
  | [], n => .ok n
  | (key, value) :: rest, n =>
    if value.isNull then entriesToNode place rest n
    else do
      let path ← Path.parseAbsolute key
      let n ← n.put (fun at_ => toNode at_ value) place path
      entriesToNode place rest n

/-- Builds the elements of a list, the first of them for position `i`. -/
def itemsToNodes (place : Path) (i : Nat) : List Value → Result (List Node)
  | [] => .ok []
  | value :: rest =>
    if value.isNull then itemsToNodes place i rest
    else do
      let n ← toNode (place.index i) value
      let more ← itemsToNodes place (i + 1) rest
      return n :: more

end

/-- Equality of literals as values: floats are compared as numbers. -/
def literalEq : Literal → Literal → Bool
  | .float x, .float y => x.numEq y
  | l, k => l == k

mutual

/-- Are two values equal, if floats are compared as numbers and the order of the entries of a mapping
does not count? -/
def numEq : Value → Value → Bool
  | .null, .null => true
  | .literal l, .literal k => literalEq l k
  | .sequence xs, .sequence ys => itemsEq xs ys
  | .mapping es, .mapping fs => es.length == fs.length && entriesEq es fs
  | .config d, .config e => d.root.alike e.root
  | _, _ => false

/-- Are the items equal one by one? -/
def itemsEq : List Value → List Value → Bool
  | [], [] => true
  | x :: xs, y :: ys => numEq x y && itemsEq xs ys
  | _, _ => false

/-- Is each of the entries also among the others? -/
def entriesEq : List (String × Value) → List (String × Value) → Bool
  | [], _ => true
  | (k, v) :: rest, fs =>
    (match Entries.get? fs k with
      | some w => numEq v w
      | none => false) && entriesEq rest fs

end

end Value

namespace Node

mutual

/-- The value that a tree holds. An expression stands for its template. -/
def toValue : Node → Value
  | .leaf s => .literal s.plain
  | .map es => .mapping (entriesToValue es)
  | .list xs => .sequence (elementsToValue xs)

/-- The values of the entries of a map. -/
def entriesToValue : List (String × Node) → List (String × Value)
  | [] => []
  | (k, child) :: rest => (k, toValue child) :: entriesToValue rest

/-- The values of the elements of a list. -/
def elementsToValue : List Node → List Value
  | [] => []
  | child :: rest => toValue child :: elementsToValue rest

end

/-- Writes `value` at `path`, in place of whatever is there. -/
def putValue (n : Node) (place path : Path) (value : Value) : Result Node :=
  n.put (fun at_ => value.toNode at_) place path

/-- Writes `value` at `path` only where nothing is. -/
def fillValue (n : Node) (place path : Path) (value : Value) : Result Node :=
  n.fill (fun at_ => value.toNode at_) place path

end Node

end LayeredConfig
