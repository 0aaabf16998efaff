import LayeredConfig.Proofs.Node.WellFormed
import Mathlib.Data.List.Forall2
import Mathlib.Data.List.Perm.Subperm

/-!
# Equal trees

Two trees are equal if they hold the same, whatever the order of the entries of their maps. Since keys are
distinct, that is a matter of what is found in them:

* `equal_map_iff` and `equal_list_iff` say what equality means for the children, and `Equal.induction` is
  induction over both trees at once;
* at every path there is nothing in both trees, or equal trees (`Equal.get?`), and the leaves are the same
  in some order (`Equal.leaves_perm`).
-/

namespace LayeredConfig

section Related

variable {α β : Type} {R : α → β → Prop}

theorem exists_of_rel_left {a : α} {x? : Option α} {y? : Option β} (related : Option.Rel R x? y?)
    (found : x? = some a) : ∃ b, y? = some b ∧ R a b := by
  cases related with
  | none => cases found
  | some related =>
    cases found
    exact ⟨_, rfl, related⟩

theorem exists_of_rel_right {b : β} {x? : Option α} {y? : Option β} (related : Option.Rel R x? y?)
    (found : y? = some b) : ∃ a, x? = some a ∧ R a b := by
  cases related with
  | none => cases found
  | some related =>
    cases found
    exact ⟨_, rfl, related⟩

theorem eq_none_iff_of_rel {x? : Option α} {y? : Option β} (related : Option.Rel R x? y?) :
    x? = none ↔ y? = none := by
  cases related with
  | none => exact iff_of_true rfl rfl
  | some _ => exact iff_of_false nofun nofun

theorem rel_trans {γ : Type} {S : β → γ → Prop} {T : α → γ → Prop} {x? : Option α} {y? : Option β}
    {z? : Option γ} (first : Option.Rel R x? y?) (second : Option.Rel S y? z?)
    (both : ∀ x y z, R x y → S y z → T x z) : Option.Rel T x? z? := by
  cases first with
  | none =>
    cases second
    exact .none
  | some first =>
    cases second with
    | some second => exact .some (both _ _ _ first second)

/-- What is made of related values one by one is related as well. -/
theorem rel_of_rel {α' β' : Type} {S : α → α' → Prop} {T : β → β' → Prop} {U : α' → β' → Prop}
    {x? : Option α} {y? : Option β} {x'? : Option α'} {y'? : Option β'}
    (related : Option.Rel R x? y?) (left : Option.Rel S x? x'?) (right : Option.Rel T y? y'?)
    (next : ∀ x y x' y', x'? = some x' → y'? = some y' → R x y → S x x' → T y y' → U x' y') :
    Option.Rel U x'? y'? := by
  cases related with
  | none =>
    cases left
    cases right
    exact .none
  | some related =>
    cases left with
    | some left =>
      cases right with
      | some right => exact .some (next _ _ _ _ rfl rfl related left right)

/-- Lists are related one by one exactly if they are related at each position. -/
theorem forall₂_iff_getElem? {xs : List α} {ys : List β} :
    List.Forall₂ R xs ys ↔ ∀ i : Nat, Option.Rel R xs[i]? ys[i]? := by
  constructor
  · intro related
    induction related with
    | nil => exact fun _ => .none
    | cons here _ ih =>
      intro i
      cases i with
      | zero => exact .some here
      | succ i => exact ih i
  · intro each
    induction xs generalizing ys with
    | nil =>
      match ys, each 0 with
      | [], _ => exact .nil
    | cons x xs ih =>
      match ys, each 0 with
      | y :: ys, .some here => exact .cons here (ih fun i => each (i + 1))

end Related

namespace Node

variable {n n' : Node} {es fs : List (String × Node)} {xs ys : List Node} {k : String} {place : Path}

/-- The trees are equal, and the keys of each of their maps are distinct, as they always are. -/
structure Equal (n n' : Node) : Prop where
  keys : n.DistinctKeys
  keys' : n'.DistinctKeys
  alike : n.alike n' = true

/-! ## Equal children -/

theorem entriesAlike_iff : entriesAlike es fs = true ↔ ∀ k child, (k, child) ∈ es →
    ∃ child', Entries.get? fs k = some child' ∧ child.alike child' = true := by
  induction es with
  | nil => exact iff_of_true rfl nofun
  | cons entry rest ih =>
    obtain ⟨k, child⟩ := entry
    rw [entriesAlike, Bool.and_eq_true, ih]
    constructor
    · rintro ⟨here, later⟩ k' child' mem
      rcases List.mem_cons.mp mem with same | mem
      · cases same
        split at here
        · next other found => exact ⟨other, found, here⟩
        · cases here
      · exact later k' child' mem
    · refine fun each => ⟨?_, fun k' child' mem => each k' child' (List.mem_cons_of_mem _ mem)⟩
      obtain ⟨other, found, alike⟩ := each k child List.mem_cons_self
      rw [found]
      exact alike

theorem elementsAlike_iff :
    elementsAlike xs ys = true ↔ List.Forall₂ (fun x y => x.alike y = true) xs ys := by
  induction xs generalizing ys with
  | nil =>
    cases ys with
    | nil => exact iff_of_true rfl .nil
    | cons y ys => exact iff_of_false nofun nofun
  | cons x xs ih =>
    cases ys with
    | nil => exact iff_of_false nofun nofun
    | cons y ys => rw [elementsAlike, Bool.and_eq_true, ih, List.forall₂_cons]

/-- Maps with distinct keys have the same keys if one has as many as the other, and all of these. -/
theorem get?_eq_none_of_subset (distinct : (Entries.keys es).Nodup)
    (subset : Entries.keys es ⊆ Entries.keys fs) (length : fs.length = es.length)
    (missing : Entries.get? es k = none) : Entries.get? fs k = none := by
  have sub : (Entries.keys es).Subperm (Entries.keys fs) := List.subperm_of_subset distinct subset
  have perm : (Entries.keys es).Perm (Entries.keys fs) := by
    refine sub.perm_of_length_le ?_
    rw [Entries.keys, Entries.keys, List.length_map, List.length_map, length]
  rw [Entries.get?_eq_none_iff] at missing ⊢
  exact fun there => missing (perm.mem_iff.mpr there)

/-- Maps are equal exactly if there is nothing in both, or equal trees, under every key. -/
theorem equal_map_iff : (Node.map es).Equal (.map fs) ↔
    (Entries.keys es).Nodup ∧ (Entries.keys fs).Nodup ∧
      ∀ k, Option.Rel Equal (Entries.get? es k) (Entries.get? fs k) := by
  constructor
  · rintro ⟨keys, keys', alike⟩
    rw [Node.alike, Bool.and_eq_true, beq_iff_eq, entriesAlike_iff] at alike
    obtain ⟨length, each⟩ := alike
    refine ⟨keys.distinct, keys'.distinct, fun k => ?_⟩
    cases found : Entries.get? es k with
    | some child =>
      have mem := Entries.mem_of_get? found
      obtain ⟨child', found', below⟩ := each k child mem
      rw [found']
      exact .some ⟨keys.entry mem, keys'.entry (Entries.mem_of_get? found'), below⟩
    | none =>
      have subset : Entries.keys es ⊆ Entries.keys fs := by
        intro key there
        obtain ⟨⟨_, child⟩, mem, rfl⟩ := List.mem_map.mp there
        obtain ⟨child', found', -⟩ := each _ child mem
        exact Entries.mem_keys_of_mem (Entries.mem_of_get? found')
      rw [get?_eq_none_of_subset keys.distinct subset length.symm found]
      exact .none
  · rintro ⟨distinct, distinct', each⟩
    have perm : (Entries.keys es).Perm (Entries.keys fs) := by
      rw [List.perm_ext_iff_of_nodup distinct distinct']
      intro key
      rw [← not_iff_not, ← Entries.get?_eq_none_iff, ← Entries.get?_eq_none_iff]
      exact eq_none_iff_of_rel (each key)
    have length : es.length = fs.length := by
      simpa only [Entries.keys, List.length_map] using perm.length_eq
    refine ⟨.map distinct fun k child mem => ?_, .map distinct' fun k child' mem => ?_, ?_⟩
    · obtain ⟨child', -, same⟩ :=
        exists_of_rel_left (each k) (Entries.get?_eq_some_of_mem distinct mem)
      exact same.keys
    · obtain ⟨child, -, same⟩ :=
        exists_of_rel_right (each k) (Entries.get?_eq_some_of_mem distinct' mem)
      exact same.keys'
    · rw [Node.alike, Bool.and_eq_true, beq_iff_eq, entriesAlike_iff]
      refine ⟨length, fun k child mem => ?_⟩
      obtain ⟨child', found', same⟩ :=
        exists_of_rel_left (each k) (Entries.get?_eq_some_of_mem distinct mem)
      exact ⟨child', found', same.alike⟩

/-- Lists are equal exactly if their elements are, one by one. -/
theorem equal_list_iff : (Node.list xs).Equal (.list ys) ↔ List.Forall₂ Equal xs ys := by
  constructor
  · rintro ⟨keys, keys', alike⟩
    rw [Node.alike, elementsAlike_iff] at alike
    have each : ∀ x ∈ xs, x.DistinctKeys := fun x => keys.element
    have each' : ∀ y ∈ ys, y.DistinctKeys := fun y => keys'.element
    clear keys keys'
    induction alike with
    | nil => exact .nil
    | cons here _ ih =>
      obtain ⟨first, rest⟩ := List.forall_mem_cons.mp each
      obtain ⟨first', rest'⟩ := List.forall_mem_cons.mp each'
      exact .cons ⟨first, first', here⟩ (ih rest rest')
  · intro same
    have each := forall₂_iff_getElem?.mp same
    refine ⟨.list fun x mem => ?_, .list fun y mem => ?_, ?_⟩
    · obtain ⟨i, here⟩ := List.mem_iff_getElem?.mp mem
      obtain ⟨y, -, same⟩ := exists_of_rel_left (each i) here
      exact same.keys
    · obtain ⟨i, here⟩ := List.mem_iff_getElem?.mp mem
      obtain ⟨x, -, same⟩ := exists_of_rel_right (each i) here
      exact same.keys'
    · rw [Node.alike, elementsAlike_iff]
      exact same.imp fun _ _ same => same.alike

theorem equal_leaf (s : Scalar) : (Node.leaf s).Equal (.leaf s) :=
  ⟨.leaf s, .leaf s, by rw [Node.alike, beq_self_eq_true]⟩

/-- Induction over equal trees, from their children to the trees. -/
@[elab_as_elim]
theorem Equal.induction {motive : (n n' : Node) → n.Equal n' → Prop}
    (leaf : ∀ s (same : (Node.leaf s).Equal (.leaf s)), motive (.leaf s) (.leaf s) same)
    (map : ∀ es fs (same : (Node.map es).Equal (.map fs)),
      (∀ k, Option.Rel (fun child child' => ∃ below : child.Equal child', motive child child' below)
        (Entries.get? es k) (Entries.get? fs k)) → motive (.map es) (.map fs) same)
    (list : ∀ xs ys (same : (Node.list xs).Equal (.list ys)),
      List.Forall₂ (fun x y => ∃ below : x.Equal y, motive x y below) xs ys →
        motive (.list xs) (.list ys) same)
    {n n' : Node} (same : n.Equal n') : motive n n' same := by
  induction n using Node.induction generalizing n' with
  | leaf s =>
    match n', same.alike with
    | .leaf t, alike =>
      cases eq_of_beq alike
      exact leaf s same
  | map es ih =>
    match n', same.alike with
    | .map fs, _ =>
      obtain ⟨-, -, each⟩ := equal_map_iff.mp same
      refine map es fs same fun k => ?_
      cases found : Entries.get? es k with
      | none =>
        rw [(eq_none_iff_of_rel (each k)).mp found]
        exact .none
      | some child =>
        obtain ⟨child', found', below⟩ := exists_of_rel_left (each k) found
        rw [found']
        exact .some ⟨below, ih k child (Entries.mem_of_get? found) below⟩
  | list xs ih =>
    match n', same.alike with
    | .list ys, _ =>
      have each := forall₂_iff_getElem?.mp (equal_list_iff.mp same)
      refine list xs ys same (forall₂_iff_getElem?.mpr fun i => ?_)
      cases found : xs[i]? with
      | none =>
        rw [(eq_none_iff_of_rel (each i)).mp found]
        exact .none
      | some x =>
        obtain ⟨y, found', below⟩ := exists_of_rel_left (each i) found
        rw [found']
        exact .some ⟨below, ih x (List.mem_of_getElem? found) below⟩

theorem Equal.symm (same : n.Equal n') : n'.Equal n := by
  induction same using Equal.induction with
  | leaf s same => exact same
  | map es fs same ih =>
    obtain ⟨distinct, distinct', -⟩ := equal_map_iff.mp same
    refine equal_map_iff.mpr ⟨distinct', distinct, fun k => ?_⟩
    have next := ih k
    generalize Entries.get? es k = here, Entries.get? fs k = here' at next ⊢
    cases next with
    | none => exact .none
    | some both => exact .some both.2
  | list xs ys same ih =>
    have back : List.Forall₂ Equal ys xs := List.Forall₂.flip (ih.imp fun _ _ both => both.2)
    exact equal_list_iff.mpr back

theorem Equal.refl (keys : n.DistinctKeys) : n.Equal n := by
  induction keys with
  | leaf s => exact equal_leaf s
  | @map es distinct _ ih =>
    refine equal_map_iff.mpr ⟨distinct, distinct, fun k => ?_⟩
    cases found : Entries.get? es k with
    | none => exact .none
    | some child => exact .some (ih k child (Entries.mem_of_get? found))
  | list _ ih => exact equal_list_iff.mpr (List.forall₂_same.mpr ih)

theorem Equal.trans {n'' : Node} (same : n.Equal n') (same' : n'.Equal n'') : n.Equal n'' := by
  induction same using Equal.induction generalizing n'' with
  | leaf s => exact same'
  | map es fs same ih =>
    match n'', same'.alike with
    | .map gs, _ =>
      obtain ⟨distinct, -, -⟩ := equal_map_iff.mp same
      obtain ⟨-, distinct', each⟩ := equal_map_iff.mp same'
      refine equal_map_iff.mpr ⟨distinct, distinct', fun k => ?_⟩
      exact rel_trans (ih k) (each k) fun _ _ _ first second => first.2 second
  | list xs ys same ih =>
    match n'', same'.alike with
    | .list zs, _ =>
      refine equal_list_iff.mpr (forall₂_iff_getElem?.mpr fun i => ?_)
      have each := forall₂_iff_getElem?.mp (equal_list_iff.mp same') i
      exact rel_trans (forall₂_iff_getElem?.mp ih i) each fun _ _ _ first second => first.2 second

/-! ## What is found in equal trees -/

theorem Equal.entry (same : (Node.map es).Equal (.map fs)) (k : String) :
    Option.Rel Equal (Entries.get? es k) (Entries.get? fs k) :=
  (equal_map_iff.mp same).2.2 k

theorem Equal.element (same : (Node.list xs).Equal (.list ys)) (i : Nat) :
    Option.Rel Equal xs[i]? ys[i]? :=
  forall₂_iff_getElem?.mp (equal_list_iff.mp same) i

theorem Equal.isEmpty (same : n.Equal n') : n'.isEmpty = n.isEmpty := by
  induction same using Equal.induction with
  | leaf s => rfl
  | map es fs same _ =>
    have alike := same.alike
    rw [Node.alike, Bool.and_eq_true, beq_iff_eq] at alike
    rw [Node.isEmpty, Node.isEmpty, Bool.eq_iff_iff, List.isEmpty_iff_length_eq_zero,
      List.isEmpty_iff_length_eq_zero, alike.1]
  | list xs ys same _ =>
    have length := (equal_list_iff.mp same).length_eq
    rw [Node.isEmpty, Node.isEmpty, Bool.eq_iff_iff, List.isEmpty_iff_length_eq_zero,
      List.isEmpty_iff_length_eq_zero, length]

/-- At every path there is nothing in both trees, or equal trees. -/
theorem Equal.get? (same : n.Equal n') (p : Path) : Option.Rel Equal (n.get? p) (n'.get? p) := by
  induction p generalizing n n' with
  | nil =>
    rw [get?_nil, get?_nil]
    exact .some same
  | cons step rest ih =>
    induction same using Equal.induction with
    | leaf s =>
      rw [get?_leaf_cons]
      exact .none
    | map es fs same _ =>
      cases step with
      | index i => exact .none
      | name k =>
        have next := same.entry k
        rw [get?_name, get?_name]
        generalize Entries.get? es k = here, Entries.get? fs k = here' at next ⊢
        cases next with
        | none => exact .none
        | some below => exact ih below
    | list xs ys same _ =>
      cases step with
      | name k => exact .none
      | index i =>
        have next := same.element i
        rw [get?_index, get?_index]
        generalize xs[i]? = here, ys[i]? = here' at next ⊢
        cases next with
        | none => exact .none
        | some below => exact ih below

theorem Equal.leaf_of_leaf (same : n.Equal n') {q : Path} {s : Scalar}
    (found : n.get? q = some (.leaf s)) : n'.get? q = some (.leaf s) := by
  obtain ⟨m, found', below⟩ := exists_of_rel_left (same.get? q) found
  match m, below.alike with
  | .leaf t, alike => rw [found', eq_of_beq alike]

/-- Equal trees have the same leaves at the same paths. -/
theorem Equal.leaf (same : n.Equal n') (q : Path) (s : Scalar) :
    n.get? q = some (.leaf s) ↔ n'.get? q = some (.leaf s) :=
  ⟨same.leaf_of_leaf, same.symm.leaf_of_leaf⟩

theorem Equal.leaves_subset (same : n.Equal n') : n.leaves place ⊆ n'.leaves place := by
  intro leaf mem
  obtain ⟨q, path, found⟩ := get?_of_mem_leaves same.keys mem
  have mem' := mem_leaves_of_get? place (same.leaf_of_leaf found)
  rwa [← path] at mem'

/-- Equal trees list the same leaves, in some order. -/
theorem Equal.leaves_perm (same : n.Equal n') : (n.leaves place).Perm (n'.leaves place) := by
  have nodup := (nodup_leaves same.keys place).of_map
  have nodup' := (nodup_leaves same.keys' place).of_map
  refine (List.perm_ext_iff_of_nodup nodup nodup').mpr fun leaf => ?_
  exact ⟨fun mem => same.leaves_subset mem, fun mem => same.symm.leaves_subset mem⟩

end Node

end LayeredConfig
