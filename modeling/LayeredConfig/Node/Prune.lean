import LayeredConfig.Node

/-!
# Edits that take something away

Taking a leaf or a subtree away may leave its container without content. `Pruning` says which empty
containers go as well, and `Edit` is what an edit makes of one node: nothing, another node, or no node.
-/

namespace LayeredConfig

/-- Which kinds of containers are taken away when an edit leaves them empty. -/
structure Pruning where
  maps : Bool
  lists : Bool
deriving DecidableEq, Repr

namespace Pruning

/-- Emptied containers stay. -/
def none : Pruning := ⟨false, false⟩

/-- Emptied containers go. -/
def both : Pruning := ⟨true, true⟩

/-- Emptied maps go. -/
def onlyMaps : Pruning := ⟨true, false⟩

/-- Emptied lists go. -/
def onlyLists : Pruning := ⟨false, true⟩

end Pruning

/-- What an edit makes of a node. -/
inductive Edit where
  | unchanged
  | replaced (node : Node)
  | removed

namespace Edit

/-- The node after the edit, which was `n` before. -/
def apply (n : Node) : Edit → Option Node
  | .unchanged => some n
  | .replaced node => some node
  | .removed => none

/-- The edit that leaves a map with these entries. -/
def ofEntries (o : Pruning) (es : List (String × Node)) : Edit :=
  if es.isEmpty && o.maps then .removed else .replaced (.map es)

/-- The edit that leaves a list with these elements. -/
def ofElements (o : Pruning) (xs : List Node) : Edit :=
  if xs.isEmpty && o.lists then .removed else .replaced (.list xs)

end Edit

namespace Node

/-- Taking away what is at `path`, and the containers that this leaves empty. The later elements of a
list move down by one. -/
def removeEdit (o : Pruning) : Node → Path → Edit
  | .map es, .name k :: rest =>
    match Entries.get? es k with
    | none => .unchanged
    | some child =>
      match if rest.isEmpty then .removed else child.removeEdit o rest with
      | .unchanged => .unchanged
      | .replaced child => Edit.ofEntries o (Entries.put es k child)
      | .removed => Edit.ofEntries o (Entries.erase es k)
  | .list xs, .index i :: rest =>
    match xs[i]? with
    | none => .unchanged
    | some child =>
      match if rest.isEmpty then .removed else child.removeEdit o rest with
      | .unchanged => .unchanged
      | .replaced child => Edit.ofElements o (xs.set i child)
      | .removed => Edit.ofElements o (xs.eraseIdx i)
  | _, _ => .unchanged

/-- The tree without what is at `path`. There is none left if the root is emptied and pruned. A path to
nothing, and the path of the root, leave the tree as it is. -/
def remove (n : Node) (path : Path) (o : Pruning) : Option Node :=
  (n.removeEdit o path).apply n

end Node

end LayeredConfig
