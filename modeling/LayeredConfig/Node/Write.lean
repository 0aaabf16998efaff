import LayeredConfig.Error
import LayeredConfig.Node

/-!
# Writing into a tree

Writing at a path goes down through the containers that are there, as long as their kind fits the next
step of the path. Where the tree ends or the kind does not fit, what is there is dropped and fresh
containers lead to the rest of the path. A list grows by one element at most.

* `put` replaces whatever is at the path;
* `fill` writes only where nothing is, and never makes a list element.

The new node is given as a function of the path at which it will stand, since building it may fail
with an error about that path. Both operations take the path `place` of the node that they work on.
-/

namespace LayeredConfig.Node

/-- The error about writing an element beyond the end of a list. -/
def beyondList (element : Path) (length : Nat) : Error :=
  (Error.missingValue element.text).withHelp
    (s!"The list has {length} elements, write index {length} first")

/-- The error about starting a list with an element other than the first. -/
def badFirstIndex (full : Path) (position : Nat) : Error :=
  (Error.missingValue full.text).withHelp s!"A new list starts at index 0, got {position}"

/-- Wraps `node` into fresh containers, one for each step. A fresh list has its first element only. The
path `full` is for the error. -/
def wrap (full : Path) (node : Node) : Path → Result Node
  | [] => .ok node
  | .name k :: rest => do
    let inner ← wrap full node rest
    return .map [(k, inner)]
  | .index i :: rest => do
    let inner ← wrap full node rest
    if i = 0 then return .list [inner] else throw (badFirstIndex full i)

/-- Fresh containers that lead from `place` along `path` to a new node. -/
def fresh (build : Path → Result Node) (place path : Path) : Result Node := do
  let node ← build (place ++ path)
  wrap (place ++ path) node path

/-- Writes a new node at `path`, in place of whatever is there. -/
def put (build : Path → Result Node) (place : Path) : Node → Path → Result Node
  | _, [] => build place
  | .map es, .name k :: rest => do
    let child ← match Entries.get? es k with
      | some child => child.put build (place.key k) rest
      | none => fresh build (place.key k) rest
    return .map (Entries.put es k child)
  | .list xs, .index i :: rest =>
    if xs.length < i then .error (beyondList (place.index i) xs.length)
    else match xs[i]? with
      | some child => do
        let child ← child.put build (place.index i) rest
        return .list (xs.set i child)
      | none => do
        let child ← fresh build (place.index i) rest
        return .list (xs ++ [child])
  | _, path => fresh build place path

/-- Writes a new node at `path` if nothing is there and no list element has to be made. The result is
`none` if the tree stays as it is. -/
def fill? (build : Path → Result Node) (place : Path) : Node → Path → Result (Option Node)
  | _, [] => .ok none
  | .map es, .name k :: rest =>
    match Entries.get? es k with
    | some child => do
      let child? ← child.fill? build (place.key k) rest
      return child?.map fun child => .map (Entries.put es k child)
    | none =>
      if rest.any Step.isIndex then .ok none
      else do
        let child ← fresh build (place.key k) rest
        return some (.map (Entries.put es k child))
  | .list xs, .index i :: rest =>
    match xs[i]? with
    | some child => do
      let child? ← child.fill? build (place.index i) rest
      return child?.map fun child => .list (xs.set i child)
    | none => .ok none
  | _, _ => .ok none

/-- Writes a new node at `path` only where nothing is. -/
def fill (build : Path → Result Node) (place : Path) (n : Node) (path : Path) : Result Node := do
  return (← n.fill? build place path).getD n

end LayeredConfig.Node
