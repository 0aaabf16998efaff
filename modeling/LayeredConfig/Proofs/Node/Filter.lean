import LayeredConfig.Node.Leaves
import LayeredConfig.Proofs.Node.WellFormed

/-!
# What is left when leaves are dropped

`sift` says by plain recursion what dropping leaves comes to: leaves are kept or not, containers are put
together from what is left of their children, and those that are empty then go, if they are pruned.
`filterLeaves_eq` shows that it is what `filterLeaves` does, which keeps unchanged subtrees as they are.

* Nothing is left of a tree exactly if none of its leaves is kept (`sift_eq_none_iff`).
* What is left has no container that is pruned (`prunes_of_sift`).
-/

namespace LayeredConfig

/-- Does a node go because it is an empty container? -/
def Pruning.prunes (o : Pruning) : Node → Bool
  | .map es => es.isEmpty && o.maps
  | .list xs => xs.isEmpty && o.lists
  | .leaf _ => false

/-- The node, unless it goes because it is empty. -/
def Pruning.keep? (o : Pruning) (n : Node) : Option Node :=
  if o.prunes n then .none else some n

theorem Pruning.prunes_both (n : Node) : Pruning.both.prunes n = n.isEmpty := by
  cases n with
  | leaf s => rfl
  | map es => exact Bool.and_true _
  | list xs => exact Bool.and_true _

theorem Pruning.keep?_eq_some_iff {o : Pruning} {n n' : Node} :
    o.keep? n = some n' ↔ o.prunes n = false ∧ n' = n := by
  unfold Pruning.keep?
  cases o.prunes n with
  | true => exact ⟨nofun, nofun⟩
  | false => exact ⟨fun same => ⟨rfl, (Option.some.inj same).symm⟩, fun same => congrArg some same.2.symm⟩

namespace Node

mutual

/-- What is left of a node at `p`, if anything. -/
def sift (keep : Path → Scalar → Bool) (o : Pruning) (p : Path) : Node → Option Node
  | .leaf s => if keep p s then some (.leaf s) else none
  | .map es => o.keep? (.map (siftEntries keep o p es))
  | .list xs => o.keep? (.list (siftElements keep o p 0 xs))

/-- The entries of which something is left. -/
def siftEntries (keep : Path → Scalar → Bool) (o : Pruning) (p : Path) :
    List (String × Node) → List (String × Node)
  | [] => []
  | (k, child) :: rest =>
    match sift keep o (p.key k) child with
    | some left => (k, left) :: siftEntries keep o p rest
    | none => siftEntries keep o p rest

/-- The elements from position `i` on of which something is left. -/
def siftElements (keep : Path → Scalar → Bool) (o : Pruning) (p : Path) (i : Nat) :
    List Node → List Node
  | [] => []
  | child :: rest =>
    match sift keep o (p.index i) child with
    | some left => left :: siftElements keep o p (i + 1) rest
    | none => siftElements keep o p (i + 1) rest

end

section Sift

variable {keep : Path → Scalar → Bool} {o : Pruning} {p : Path} {n left child : Node}
  {es : List (String × Node)} {xs : List Node} {i : Nat} {k : String}

/-! ## Edits -/

theorem keep?_of_not_prunes (stays : o.prunes n = false) : o.keep? n = some n := by
  rw [Pruning.keep?, if_neg (ne_true_of_eq_false stays)]

/-- An empty container has no leaves, so it does not matter to them whether it goes. -/
theorem leaves_keep? (q : Path) : ((o.keep? n).getD .empty).leaves q = n.leaves q := by
  rw [Pruning.keep?]
  split
  · next goes =>
    cases n with
    | leaf s => cases goes
    | map es => rw [List.isEmpty_iff.mp (Bool.and_eq_true_iff.mp goes).1]; rfl
    | list xs => rw [List.isEmpty_iff.mp (Bool.and_eq_true_iff.mp goes).1]; rfl
  · rfl

theorem apply_ofEntries (n : Node) (es : List (String × Node)) :
    (Edit.ofEntries o es).apply n = o.keep? (.map es) := by
  unfold Edit.ofEntries Pruning.keep?
  rw [Pruning.prunes]
  split <;> rfl

theorem apply_ofElements (n : Node) (xs : List Node) :
    (Edit.ofElements o xs).apply n = o.keep? (.list xs) := by
  unfold Edit.ofElements Pruning.keep?
  rw [Pruning.prunes]
  split <;> rfl

/-- A map without a change is kept as it is, and else it is put together from the entries that are left. -/
theorem apply_entriesEdit {kept : List (String × Node)} {changed : Bool}
    (same : changed = false → kept = es) :
    (if changed || (kept.isEmpty && o.maps) then Edit.ofEntries o kept else .unchanged).apply (.map es) =
      o.keep? (.map kept) := by
  cases changed with
  | true => exact apply_ofEntries _ kept
  | false =>
    rw [Bool.false_or]
    split
    · exact apply_ofEntries _ kept
    · next stays =>
      rw [same rfl] at stays ⊢
      exact (keep?_of_not_prunes (n := .map es) (eq_false_of_ne_true stays)).symm

theorem apply_elementsEdit {kept : List Node} {changed : Bool} (same : changed = false → kept = xs) :
    (if changed || (kept.isEmpty && o.lists) then Edit.ofElements o kept else .unchanged).apply
      (.list xs) = o.keep? (.list kept) := by
  cases changed with
  | true => exact apply_ofElements _ kept
  | false =>
    rw [Bool.false_or]
    split
    · exact apply_ofElements _ kept
    · next stays =>
      rw [same rfl] at stays ⊢
      exact (keep?_of_not_prunes (n := .list xs) (eq_false_of_ne_true stays)).symm

mutual

theorem apply_filterEdit (p : Path) : ∀ n : Node,
    (Id.run (filterEdit (fun q s => pure (keep q s)) o p n)).apply n = n.sift keep o p
  | .leaf s => by
    rw [filterEdit, sift]
    show Edit.apply (.leaf s) (if keep p s then .unchanged else .removed) = _
    cases keep p s <;> rfl
  | .map es => by
    obtain ⟨changed, result, same⟩ := filterEntries_eq p es
    rw [filterEdit, sift, ← apply_entriesEdit same, Id.run_bind, result]
    rfl
  | .list xs => by
    obtain ⟨changed, result, same⟩ := filterElements_eq p 0 xs
    rw [filterEdit, sift, ← apply_elementsEdit same, Id.run_bind, result]
    rfl
termination_by structural n => n

theorem filterEntries_eq (p : Path) : ∀ es : List (String × Node),
    ∃ changed, Id.run (filterEntries (fun q s => pure (keep q s)) o p es) =
      (siftEntries keep o p es, changed) ∧ (changed = false → siftEntries keep o p es = es)
  | [] => ⟨false, rfl, fun _ => rfl⟩
  | (k, child) :: rest => by
    have here := apply_filterEdit (p.key k) child
    obtain ⟨changed, later, same⟩ := filterEntries_eq p rest
    rw [filterEntries, siftEntries, ← here, Id.run_bind, Id.run_bind, later]
    cases Id.run (filterEdit (fun q s => pure (keep q s)) o (p.key k) child) with
    | unchanged => exact ⟨changed, rfl, fun unchanged => congrArg _ (same unchanged)⟩
    | replaced node => exact ⟨true, rfl, nofun⟩
    | removed => exact ⟨true, rfl, nofun⟩
termination_by structural es => es

theorem filterElements_eq (p : Path) (i : Nat) : ∀ xs : List Node,
    ∃ changed, Id.run (filterElements (fun q s => pure (keep q s)) o p i xs) =
      (siftElements keep o p i xs, changed) ∧ (changed = false → siftElements keep o p i xs = xs)
  | [] => ⟨false, rfl, fun _ => rfl⟩
  | child :: rest => by
    have here := apply_filterEdit (p.index i) child
    obtain ⟨changed, later, same⟩ := filterElements_eq p (i + 1) rest
    rw [filterElements, siftElements, ← here, Id.run_bind, Id.run_bind, later]
    cases Id.run (filterEdit (fun q s => pure (keep q s)) o (p.index i) child) with
    | unchanged => exact ⟨changed, rfl, fun unchanged => congrArg _ (same unchanged)⟩
    | replaced node => exact ⟨true, rfl, nofun⟩
    | removed => exact ⟨true, rfl, nofun⟩
termination_by structural xs => xs

end

/-- Dropping leaves is the plain recursion. -/
theorem filterLeaves_eq (keep : Path → Scalar → Bool) (o : Pruning) (p : Path) (n : Node) :
    Id.run (n.filterLeaves (fun q s => pure (keep q s)) p o) = n.sift keep o p := by
  rw [filterLeaves, Id.run_bind]
  exact apply_filterEdit p n

/-! ## Children that are left -/

theorem mem_siftEntries (mem : (k, left) ∈ siftEntries keep o p es) :
    ∃ child, (k, child) ∈ es ∧ child.sift keep o (p.key k) = some left := by
  induction es with
  | nil => cases mem
  | cons entry rest ih =>
    obtain ⟨k', child⟩ := entry
    rw [siftEntries] at mem
    cases here : child.sift keep o (p.key k') with
    | none =>
      rw [here] at mem
      obtain ⟨child', there, left⟩ := ih mem
      exact ⟨child', List.mem_cons_of_mem _ there, left⟩
    | some node =>
      rw [here] at mem
      rcases List.mem_cons.mp mem with same | later
      · cases same
        exact ⟨child, List.mem_cons_self, here⟩
      · obtain ⟨child', there, left⟩ := ih later
        exact ⟨child', List.mem_cons_of_mem _ there, left⟩

theorem mem_siftElements (mem : left ∈ siftElements keep o p i xs) :
    ∃ child ∈ xs, ∃ j, child.sift keep o (p.index j) = some left := by
  induction xs generalizing i with
  | nil => cases mem
  | cons child rest ih =>
    rw [siftElements] at mem
    cases here : child.sift keep o (p.index i) with
    | none =>
      rw [here] at mem
      obtain ⟨child', there, left⟩ := ih mem
      exact ⟨child', List.mem_cons_of_mem _ there, left⟩
    | some node =>
      rw [here] at mem
      rcases List.mem_cons.mp mem with rfl | later
      · exact ⟨child, List.mem_cons_self, i, here⟩
      · obtain ⟨child', there, left⟩ := ih later
        exact ⟨child', List.mem_cons_of_mem _ there, left⟩

theorem siftEntries_eq_self
    (stay : ∀ k child, (k, child) ∈ es → child.sift keep o (p.key k) = some child) :
    siftEntries keep o p es = es := by
  induction es with
  | nil => rfl
  | cons entry rest ih =>
    obtain ⟨k, child⟩ := entry
    rw [siftEntries, stay k child List.mem_cons_self,
      ih fun k' child' mem => stay k' child' (List.mem_cons_of_mem _ mem)]

theorem siftElements_eq_self
    (stay : ∀ (j : Nat) (child : Node), xs[j]? = some child →
      child.sift keep o (p.index (i + j)) = some child) :
    siftElements keep o p i xs = xs := by
  induction xs generalizing i with
  | nil => rfl
  | cons child rest ih =>
    have here : child.sift keep o (p.index i) = some child := stay 0 child rfl
    have later : siftElements keep o p (i + 1) rest = rest := by
      refine ih fun j child' found => ?_
      rw [Nat.add_assoc, Nat.add_comm 1 j]
      exact stay (j + 1) child' found
    rw [siftElements, here, later]

/-- What is left has no container, at whatever path, that is empty and pruned. -/
theorem prunes_of_sift {q : Path} (sifted : n.sift keep o p = some left)
    (found : left.get? q = some child) : o.prunes child = false := by
  induction n using Node.induction generalizing p q left with
  | leaf s =>
    rw [sift] at sifted
    split at sifted
    · cases sifted
      cases q with
      | nil =>
        cases (get?_nil _).symm.trans found
        rfl
      | cons step rest =>
        rw [get?_leaf_cons] at found
        cases found
    · cases sifted
  | map es ih =>
    obtain ⟨stays, rfl⟩ := Pruning.keep?_eq_some_iff.mp sifted
    match q with
    | [] =>
      cases found
      exact stays
    | .index _ :: _ => cases found
    | .name k :: rest =>
      rw [get?_name] at found
      obtain ⟨node, here, below⟩ := Option.bind_eq_some_iff.mp found
      obtain ⟨old, mem, sifted⟩ := mem_siftEntries (Entries.mem_of_get? here)
      exact ih k old mem sifted below
  | list xs ih =>
    obtain ⟨stays, rfl⟩ := Pruning.keep?_eq_some_iff.mp sifted
    match q with
    | [] =>
      cases found
      exact stays
    | .name _ :: _ => cases found
    | .index j :: rest =>
      rw [get?_index] at found
      obtain ⟨node, here, below⟩ := Option.bind_eq_some_iff.mp found
      obtain ⟨old, mem, _, sifted⟩ := mem_siftElements (List.mem_of_getElem? here)
      exact ih old mem sifted below

theorem keep?_both_eq_none_iff : Pruning.both.keep? n = none ↔ n.isEmpty = true := by
  rw [Pruning.keep?, Pruning.prunes_both]
  cases n.isEmpty with
  | true => exact ⟨fun _ => rfl, fun _ => rfl⟩
  | false => exact ⟨nofun, nofun⟩

mutual

/-- If all emptied containers go, something is left exactly if a leaf is. -/
theorem sift_eq_none_iff {p : Path} : ∀ {n : Node}, n.sift keep .both p = none ↔
    ∀ leaf ∈ n.leaves p, keep leaf.1 leaf.2 = false
  | .leaf s => by
    rw [sift, leaves, List.forall_mem_singleton]
    cases keep p s with
    | true => exact ⟨nofun, nofun⟩
    | false => exact ⟨fun _ => rfl, fun _ => rfl⟩
  | .map es => by
    rw [sift, keep?_both_eq_none_iff, leaves, ← siftEntries_eq_nil_iff]
    exact List.isEmpty_iff
  | .list xs => by
    rw [sift, keep?_both_eq_none_iff, leaves, ← siftElements_eq_nil_iff]
    exact List.isEmpty_iff
termination_by structural n => n

theorem siftEntries_eq_nil_iff {p : Path} : ∀ {es : List (String × Node)},
    siftEntries keep .both p es = [] ↔ ∀ leaf ∈ leavesOfEntries p es, keep leaf.1 leaf.2 = false
  | [] => ⟨fun _ => nofun, fun _ => rfl⟩
  | (k, child) :: rest => by
    have here := sift_eq_none_iff (p := p.key k) (n := child)
    rw [siftEntries, leavesOfEntries, List.forall_mem_append, ← here, ← siftEntries_eq_nil_iff]
    cases child.sift keep .both (p.key k) with
    | none => exact ⟨fun empty => ⟨rfl, empty⟩, fun both => both.2⟩
    | some left => exact ⟨nofun, nofun⟩
termination_by structural es => es

theorem siftElements_eq_nil_iff {p : Path} {i : Nat} : ∀ {xs : List Node},
    siftElements keep .both p i xs = [] ↔
      ∀ leaf ∈ leavesOfElements p i xs, keep leaf.1 leaf.2 = false
  | [] => ⟨fun _ => nofun, fun _ => rfl⟩
  | child :: rest => by
    have here := sift_eq_none_iff (p := p.index i) (n := child)
    rw [siftElements, leavesOfElements, List.forall_mem_append, ← here, ← siftElements_eq_nil_iff]
    cases child.sift keep .both (p.index i) with
    | none => exact ⟨fun empty => ⟨rfl, empty⟩, fun both => both.2⟩
    | some left => exact ⟨nofun, nofun⟩
termination_by structural xs => xs

end

end Sift

end Node

end LayeredConfig
