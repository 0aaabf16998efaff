import LayeredConfig.Proofs.Node.Remove

/-!
# Removing a leaf

Removing follows one path down, and filtering goes through the whole tree. They prune by the same rule: if
nothing was there to prune before, removing a leaf is filtering with a test that refuses this one
(`remove_leaf`).

For filtering it is one step, too, as long as all other children stay (`IsChild.sift`).
-/

namespace LayeredConfig.Node

/-- No container in the tree is empty and pruned. -/
def IsPruned (o : Pruning) (n : Node) : Prop :=
  ∀ q m, n.get? q = some m → o.prunes m = false

section Staying

variable {keep : Path → Scalar → Bool} {o : Pruning} {p : Path} {n child : Node} {step : Step}
  {es : List (String × Node)} {xs : List Node} {k : String} {i start : Nat}

theorem IsChild.distinctKeys (isChild : n.IsChild step child) (keys : n.DistinctKeys) :
    child.DistinctKeys := by
  cases isChild with
  | entry here => exact keys.entry (Entries.mem_of_get? here)
  | element here => exact keys.element (List.mem_of_getElem? here)

theorem IsChild.isPruned (isChild : n.IsChild step child) (pruned : n.IsPruned o) : child.IsPruned o := by
  intro q m found
  rw [← isChild.get?_cons] at found
  exact pruned (step :: q) m found

/-- A tree in which nothing is to be pruned stays as it is if all of its leaves are kept. -/
theorem sift_eq_self (keys : n.DistinctKeys) (pruned : n.IsPruned o)
    (all : ∀ leaf ∈ n.leaves p, keep leaf.1 leaf.2 = true) : n.sift keep o p = some n := by
  induction n using Node.induction generalizing p with
  | leaf s => rw [sift, if_pos (all (p, s) (List.mem_singleton.mpr rfl))]
  | map es ih =>
    rw [sift, siftEntries_eq_self fun k child mem => ?_, keep?_of_not_prunes (pruned [] _ rfl)]
    have isChild := IsChild.entry (Entries.get?_eq_some_of_mem keys.distinct mem)
    exact ih k child mem (keys.entry mem) (isChild.isPruned pruned) fun leaf below =>
      all leaf (mem_leavesOfEntries_iff.mpr ⟨k, child, mem, below⟩)
  | list xs ih =>
    rw [sift, siftElements_eq_self fun j child found => ?_, keep?_of_not_prunes (pruned [] _ rfl)]
    have mem := List.mem_of_getElem? found
    exact ih child mem (keys.element mem) ((IsChild.element found).isPruned pruned) fun leaf below =>
      all leaf (mem_leavesOfElements_iff.mpr ⟨j, child, found, below⟩)

/-! ## One step of a filter -/

theorem siftEntries_of_get? (distinct : (Entries.keys es).Nodup) (here : Entries.get? es k = some child)
    (others : ∀ k' child', (k', child') ∈ es → k' ≠ k → child'.sift keep o (p.key k') = some child') :
    siftEntries keep o p es =
      match child.sift keep o (p.key k) with
      | some left => Entries.put es k left
      | none => Entries.erase es k := by
  induction es with
  | nil => cases here
  | cons entry rest ih =>
    obtain ⟨k', c⟩ := entry
    obtain ⟨first, distinct⟩ := List.nodup_cons.mp distinct
    rw [Entries.get?] at here
    rw [siftEntries]
    split at here
    · next same =>
      subst same
      cases here
      have stay : siftEntries keep o p rest = rest := by
        refine siftEntries_eq_self fun k child mem => others k child (List.mem_cons_of_mem _ mem) ?_
        rintro rfl
        exact first (Entries.mem_keys_of_mem mem)
      rw [stay]
      cases child.sift keep o (p.key k') with
      | none => exact (if_pos rfl).symm
      | some left => exact (if_pos rfl).symm
    · next differ =>
      have later := ih distinct here fun k child mem => others k child (List.mem_cons_of_mem _ mem)
      rw [others k' c List.mem_cons_self differ, later]
      simp only [Entries.put, Entries.erase, if_neg differ]
      cases child.sift keep o (p.key k) <;> rfl

theorem siftElements_of_getElem? (here : xs[i]? = some child)
    (others : ∀ (j : Nat) (child' : Node), xs[j]? = some child' → j ≠ i →
      child'.sift keep o (p.index (start + j)) = some child') :
    siftElements keep o p start xs =
      match child.sift keep o (p.index (start + i)) with
      | some left => xs.set i left
      | none => xs.eraseIdx i := by
  induction xs generalizing i start with
  | nil => cases here
  | cons x rest ih =>
    rw [siftElements]
    cases i with
    | zero =>
      cases here
      have stay : siftElements keep o p (start + 1) rest = rest := by
        refine siftElements_eq_self fun j child found => ?_
        rw [Nat.add_assoc, Nat.add_comm 1 j]
        exact others (j + 1) child found (Nat.succ_ne_zero j)
      rw [stay, Nat.add_zero]
      rfl
    | succ i =>
      have first : x.sift keep o (p.index start) = some x := others 0 x rfl (Nat.succ_ne_zero i).symm
      have others' : ∀ (j : Nat) (child' : Node), rest[j]? = some child' → j ≠ i →
          child'.sift keep o (p.index (start + 1 + j)) = some child' := by
        intro j child' found differ
        rw [Nat.add_assoc, Nat.add_comm 1 j]
        exact others (j + 1) child' found fun same => differ (Nat.succ.inj same)
      rw [first, ih here others', Nat.add_assoc, Nat.add_comm 1 i]
      cases child.sift keep o (p.index (start + (i + 1))) <;> rfl

/-- If the other children stay, the filter does to the node what it makes of this one. -/
theorem IsChild.sift (isChild : n.IsChild step child) (keys : n.DistinctKeys)
    (others : ∀ other child', n.IsChild other child' → other ≠ step →
      child'.sift keep o (p ++ [other]) = some child') :
    n.sift keep o p =
      match child.sift keep o (p ++ [step]) with
      | some left => some (n.setChild step left)
      | none => o.keep? (n.dropChild step) := by
  have set := isChild.set
  cases isChild with
  | @entry es k child here =>
    have left := siftEntries_of_get? keys.distinct here fun k' child' mem differ =>
      others (.name k') child' (.entry (Entries.get?_eq_some_of_mem keys.distinct mem))
        fun same => differ (Step.name.inj same)
    rw [Node.sift, left]
    show o.keep? (.map (match child.sift keep o (p.key k) with | some left => _ | none => _)) =
      match child.sift keep o (p.key k) with | some left => _ | none => _
    cases child.sift keep o (p.key k) with
    | none => rfl
    | some left => exact keep?_of_not_prunes (set left).not_prunes
  | @element xs i child here =>
    have others' : ∀ (j : Nat) (child' : Node), xs[j]? = some child' → j ≠ i →
        child'.sift keep o (p.index (0 + j)) = some child' := by
      intro j child' found differ
      rw [Nat.zero_add]
      exact others (.index j) child' (.element found) fun same => differ (Step.index.inj same)
    have left := siftElements_of_getElem? here others'
    rw [Nat.zero_add] at left
    rw [Node.sift, left]
    show o.keep? (.list (match child.sift keep o (p.index i) with | some left => _ | none => _)) =
      match child.sift keep o (p.index i) with | some left => _ | none => _
    cases child.sift keep o (p.index i) with
    | none => rfl
    | some left => exact keep?_of_not_prunes (set left).not_prunes

end Staying

/-! ## Down to the leaf -/

section Removing

variable {o : Pruning} {n : Node} {path : Path} {s : Scalar}

theorem apply_settle (o : Pruning) (n m : Node) : (Edit.settle o m).apply n = o.keep? m := by
  rw [Edit.settle, Pruning.keep?]
  split <;> rfl

/-- Taking away the leaf at the end of a path is filtering with a test that refuses it. -/
theorem apply_cut_leaf (keys : n.DistinctKeys) (pruned : n.IsPruned o)
    (found : n.get? path = some (.leaf s)) (place : Path) :
    (n.cut o path).apply n = n.sift (fun q _ => q != place ++ path) o place := by
  induction path generalizing n place with
  | nil =>
    obtain rfl := Option.some.inj ((get?_nil n).symm.trans found)
    rw [cut_nil, sift, List.append_nil, if_neg (by simp)]
    rfl
  | cons step rest ih =>
    obtain ⟨child, isChild, later⟩ := get?_cons_eq_some_iff.mp found
    have below := ih (isChild.distinctKeys keys) (isChild.isPruned pruned) later (place ++ [step])
    rw [List.append_assoc, List.singleton_append] at below
    rw [cut_cons, isChild.removeEdit, isChild.sift keys fun other child' isOther differ => ?_, ← below]
    · cases edit : child.cut o rest with
      | unchanged => cases later.symm.trans (cut_eq_unchanged_iff.mp edit)
      | replaced new => rfl
      | removed => exact apply_settle o n _
    · -- the path of the leaf does not lead through the other children
      refine sift_eq_self (isOther.distinctKeys keys) (isOther.isPruned pruned) fun leaf mem => ?_
      have through : place ++ [step] <+: place ++ step :: rest :=
        (List.prefix_append_right_inj place).mpr (List.cons_prefix_cons.mpr ⟨rfl, List.nil_prefix⟩)
      exact bne_iff_ne.mpr (ne_of_different_steps differ (starts_of_mem_leaves mem) through)

/-- Where nothing is to be pruned, removing a leaf is filtering it out: the same containers are emptied and go,
or the same tree is left. -/
theorem remove_leaf (keys : n.DistinctKeys) (pruned : n.IsPruned o) (notRoot : path ≠ .root)
    (found : n.get? path = some (.leaf s)) :
    n.remove path o = Id.run (n.filterLeaves (fun q _ => pure (q != path)) .root o) := by
  rw [remove_of_ne_nil notRoot, filterLeaves_eq, apply_cut_leaf keys pruned found .root]
  rfl

/-- The leaf is the only one in a map in a list. The map goes and the list stays, like the list that was empty
before, as only maps are pruned. -/
theorem remove_leaf_chain :
    let one : Node := .leaf (.literal (.integer 1))
    let n : Node := .map [("a", .list [.map [("b", one)]]), ("c", .list [])]
    let path : Path := [.name "a", .index 0, .name "b"]
    n.DistinctKeys ∧ n.IsPruned .onlyMaps ∧ n.get? path = some one ∧
      n.remove path .onlyMaps = some (.map [("a", .list []), ("c", .list [])]) ∧
      n.remove path .onlyMaps = Id.run (n.filterLeaves (fun q _ => pure (q != path)) .root .onlyMaps) := by
  intro one n path
  have keys : n.DistinctKeys := by
    refine .map (by decide) fun k child mem => ?_
    rcases List.mem_pair.mp mem with same | same
    · cases same
      refine .list fun x mem => List.mem_singleton.mp mem ▸ .map (by decide) fun k child mem => ?_
      cases List.mem_singleton.mp mem
      exact .leaf _
    · cases same
      exact .list nofun
  have whole : n.sift (fun _ _ => true) .onlyMaps .root = some n := rfl
  have pruned : n.IsPruned .onlyMaps := fun q m found => prunes_of_sift whole found
  have found : n.get? path = some one := rfl
  exact ⟨keys, pruned, found, rfl, remove_leaf keys pruned nofun found⟩

end Removing

end LayeredConfig.Node
