import LayeredConfig.Node.Prune

/-!
# Working on all leaves

Replacing, dropping and testing leaves, in the order in which `Node.leaves` lists them. The functions
that decide about a leaf may have effects, such as failing or counting; they are called once for each
leaf, with its path in the tree as it was. Subtrees in which nothing changes are kept as they are.
-/

namespace LayeredConfig.Node

universe u

variable {m : Type → Type u} [Monad m]

mutual

/-- Replaces the leaves below a node at `p`. The result is `none` if no leaf changes. -/
def mapLeaves? (f : Path → Scalar → m Scalar) (p : Path) : Node → m (Option Node)
  | .leaf s => do
    let t ← f p s
    return if t = s then none else some (.leaf t)
  | .map es => do
    let changed ← mapEntries? f p es
    return changed.map .map
  | .list xs => do
    let changed ← mapElements? f p 0 xs
    return changed.map .list

/-- Replaces the leaves below the entries of a map. -/
def mapEntries? (f : Path → Scalar → m Scalar) (p : Path) :
    List (String × Node) → m (Option (List (String × Node)))
  | [] => return none
  | (k, child) :: rest => do
    let child? ← mapLeaves? f (p.key k) child
    let rest? ← mapEntries? f p rest
    return if child?.isNone && rest?.isNone then none
      else some ((k, child?.getD child) :: rest?.getD rest)

/-- Replaces the leaves below the elements of a list from position `i` on. -/
def mapElements? (f : Path → Scalar → m Scalar) (p : Path) (i : Nat) :
    List Node → m (Option (List Node))
  | [] => return none
  | child :: rest => do
    let child? ← mapLeaves? f (p.index i) child
    let rest? ← mapElements? f p (i + 1) rest
    return if child?.isNone && rest?.isNone then none
      else some (child?.getD child :: rest?.getD rest)

end

/-- The tree with every leaf replaced. -/
def mapLeaves (f : Path → Scalar → m Scalar) (p : Path) (n : Node) : m Node := do
  return (← mapLeaves? f p n).getD n

mutual

/-- Drops leaves below a node at `p`, and the containers that are empty then or were before, as far as
they are pruned. -/
def filterEdit (keep : Path → Scalar → m Bool) (o : Pruning) (p : Path) : Node → m Edit
  | .leaf s => do
    return if ← keep p s then .unchanged else .removed
  | .map es => do
    let (kept, changed) ← filterEntries keep o p es
    return if changed || (kept.isEmpty && o.maps) then Edit.ofEntries o kept else .unchanged
  | .list xs => do
    let (kept, changed) ← filterElements keep o p 0 xs
    return if changed || (kept.isEmpty && o.lists) then Edit.ofElements o kept else .unchanged

/-- The entries that are left, and whether that is a change. -/
def filterEntries (keep : Path → Scalar → m Bool) (o : Pruning) (p : Path) :
    List (String × Node) → m (List (String × Node) × Bool)
  | [] => return ([], false)
  | (k, child) :: rest => do
    let edit ← filterEdit keep o (p.key k) child
    let (kept, changed) ← filterEntries keep o p rest
    return match edit with
      | .unchanged => ((k, child) :: kept, changed)
      | .replaced node => ((k, node) :: kept, true)
      | .removed => (kept, true)

/-- The elements that are left from position `i` on, and whether that is a change. -/
def filterElements (keep : Path → Scalar → m Bool) (o : Pruning) (p : Path) (i : Nat) :
    List Node → m (List Node × Bool)
  | [] => return ([], false)
  | child :: rest => do
    let edit ← filterEdit keep o (p.index i) child
    let (kept, changed) ← filterElements keep o p (i + 1) rest
    return match edit with
      | .unchanged => (child :: kept, changed)
      | .replaced node => (node :: kept, true)
      | .removed => (kept, true)

end

/-- The tree with the leaves that are to be kept. There is none left if the root is dropped. -/
def filterLeaves (keep : Path → Scalar → m Bool) (p : Path) (o : Pruning) (n : Node) :
    m (Option Node) := do
  return (← filterEdit keep o p n).apply n

mutual

/-- Does the test hold of a leaf? It is not run any more after the first for which it holds. -/
def anyLeaf (test : Scalar → m Bool) : Node → m Bool
  | .leaf s => test s
  | .map es => anyInEntries test es
  | .list xs => anyInElements test xs

/-- Does the test hold of a leaf below the entries? -/
def anyInEntries (test : Scalar → m Bool) : List (String × Node) → m Bool
  | [] => return false
  | (_, child) :: rest => do
    if ← anyLeaf test child then return true else anyInEntries test rest

/-- Does the test hold of a leaf below the elements? -/
def anyInElements (test : Scalar → m Bool) : List Node → m Bool
  | [] => return false
  | child :: rest => do
    if ← anyLeaf test child then return true else anyInElements test rest

end

end LayeredConfig.Node
