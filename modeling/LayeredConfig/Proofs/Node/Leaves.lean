import LayeredConfig.Node.Leaves
import LayeredConfig.Proofs.Node.WellFormed

/-!
# Replacing leaves

`Mapped R p n n'` says that two trees have the same shape, and that `R` relates the leaves at each path.
Replacing leaves one by one, with whatever effects, leads to such a tree (`mapLeaves_mapped`), so
whatever holds of mapped trees holds of every way to replace leaves:

* what is found at a path is mapped as well (`Mapped.get?`);
* the leaves are listed in the same order under the same paths (`Mapped.leaves`);
* replacing leaves twice is replacing them once (`Mapped.trans`), and it can be undone (`Mapped.symm`);
* two functions lead to the same tree exactly if they agree on its leaves (`Mapped.eq_iff`);
* well-formed trees stay well formed (`Mapped.wellFormed`).
-/

namespace LayeredConfig.Node

mutual

/-- The second tree, at `p`, is the first one with leaves replaced in accordance with `R`. -/
def Mapped (R : Path → Scalar → Scalar → Prop) (p : Path) : Node → Node → Prop
  | .leaf s, .leaf t => R p s t
  | .map es, .map fs => MappedEntries R p es fs
  | .list xs, .list ys => MappedElements R p 0 xs ys
  | _, _ => False

/-- The entries have the same keys, and mapped trees under them. -/
def MappedEntries (R : Path → Scalar → Scalar → Prop) (p : Path) :
    List (String × Node) → List (String × Node) → Prop
  | [], [] => True
  | (k, child) :: es, (k', child') :: fs =>
    k = k' ∧ Mapped R (p.key k) child child' ∧ MappedEntries R p es fs
  | _, _ => False

/-- The elements are mapped one by one. -/
def MappedElements (R : Path → Scalar → Scalar → Prop) (p : Path) (i : Nat) :
    List Node → List Node → Prop
  | [], [] => True
  | x :: xs, y :: ys => Mapped R (p.index i) x y ∧ MappedElements R p (i + 1) xs ys
  | _, _ => False

end

section Mapped

variable {R : Path → Scalar → Scalar → Prop} {p : Path} {n n' : Node}
  {es fs : List (String × Node)} {xs ys : List Node} {i : Nat}

/-! ## Keys and elements -/

theorem MappedEntries.keys (mapped : MappedEntries R p es fs) : Entries.keys fs = Entries.keys es := by
  induction es generalizing fs with
  | nil =>
    match fs, mapped with
    | [], _ => rfl
  | cons entry es ih =>
    match entry, fs, mapped with
    | (k, child), (_, child') :: fs, ⟨rfl, _, later⟩ =>
      have keys := ih later
      simp only [Entries.keys, List.map_cons] at keys ⊢
      rw [keys]

theorem MappedEntries.entry {k : String} {child' : Node} (mapped : MappedEntries R p es fs)
    (mem : (k, child') ∈ fs) : ∃ child, (k, child) ∈ es ∧ Mapped R (p.key k) child child' := by
  induction es generalizing fs with
  | nil =>
    match fs, mapped with
    | [], _ => cases mem
  | cons entry es ih =>
    match entry, fs, mapped with
    | (k, child), (_, child') :: fs, ⟨rfl, here, later⟩ =>
      rcases List.mem_cons.mp mem with same | mem
      · cases same
        exact ⟨child, List.mem_cons_self, here⟩
      · obtain ⟨other, mem, below⟩ := ih later mem
        exact ⟨other, List.mem_cons_of_mem _ mem, below⟩

theorem MappedEntries.get? (mapped : MappedEntries R p es fs) (k : String) :
    Option.Rel (Mapped R (p.key k)) (Entries.get? es k) (Entries.get? fs k) := by
  induction es generalizing fs with
  | nil =>
    match fs, mapped with
    | [], _ => exact .none
  | cons entry es ih =>
    match entry, fs, mapped with
    | (k', child), (_, child') :: fs, ⟨rfl, here, later⟩ =>
      rw [Entries.get?, Entries.get?]
      split
      · next same =>
        subst same
        exact .some here
      · exact ih later

theorem MappedElements.get? (mapped : MappedElements R p i xs ys) (j : Nat) :
    Option.Rel (Mapped R (p.index (i + j))) xs[j]? ys[j]? := by
  induction xs generalizing i j ys with
  | nil =>
    match ys, mapped with
    | [], _ => exact .none
  | cons x xs ih =>
    match ys, mapped with
    | y :: ys, ⟨here, later⟩ =>
      cases j with
      | zero => exact .some here
      | succ j =>
        have found := ih later j
        rwa [Nat.add_right_comm] at found

theorem MappedElements.element {y : Node} (mapped : MappedElements R p i xs ys) (mem : y ∈ ys) :
    ∃ j, ∃ x ∈ xs, Mapped R (p.index j) x y := by
  obtain ⟨j, found⟩ := List.getElem?_of_mem mem
  have both := mapped.get? j
  rw [found] at both
  generalize here : xs[j]? = x at both
  cases both with
  | some below => exact ⟨i + j, _, List.mem_of_getElem? here, below⟩

theorem MappedElements.length (mapped : MappedElements R p i xs ys) : ys.length = xs.length := by
  induction xs generalizing i ys with
  | nil =>
    match ys, mapped with
    | [], _ => rfl
  | cons x xs ih =>
    match ys, mapped with
    | y :: ys, ⟨_, later⟩ => rw [List.length_cons, List.length_cons, ih later]

/-! ## Laws of mapped trees -/

/-- At every path there is nothing in both trees, or mapped trees. -/
theorem Mapped.get? (mapped : Mapped R p n n') (q : Path) :
    Option.Rel (Mapped R (p ++ q)) (n.get? q) (n'.get? q) := by
  induction q generalizing p n n' with
  | nil =>
    rw [get?_nil, get?_nil, List.append_nil]
    exact .some mapped
  | cons step rest ih =>
    match n, n', mapped, step with
    | .leaf s, .leaf t, _, step =>
      rw [get?_leaf_cons, get?_leaf_cons]
      exact .none
    | .map es, .map fs, _, .index i => exact .none
    | .list xs, .list ys, _, .name k => exact .none
    | .map es, .map fs, holds, .name k =>
      have path : p.key k ++ rest = p ++ .name k :: rest := by simp [Path.key]
      have next := MappedEntries.get? holds k
      rw [get?_name, get?_name]
      generalize Entries.get? es k = here, Entries.get? fs k = here' at next ⊢
      cases next with
      | none => exact .none
      | some below => exact path ▸ ih below
    | .list xs, .list ys, holds, .index i =>
      have path : p.index i ++ rest = p ++ .index i :: rest := by simp [Path.index]
      have next := MappedElements.get? holds i
      rw [get?_index, get?_index]
      rw [Nat.zero_add] at next
      generalize xs[i]? = here, ys[i]? = here' at next ⊢
      cases next with
      | none => exact .none
      | some below => exact path ▸ ih below

/-- A leaf comes from a leaf at the same path. -/
theorem Mapped.leaf {q : Path} {t : Scalar} (mapped : Mapped R p n n')
    (found : n'.get? q = some (.leaf t)) : ∃ s, n.get? q = some (.leaf s) ∧ R (p ++ q) s t := by
  have both := mapped.get? q
  rw [found] at both
  generalize n.get? q = here at both ⊢
  cases both with
  | @some m _ below =>
    match m, below with
    | .leaf s, holds => exact ⟨s, rfl, holds⟩

/-- A leaf goes to a leaf at the same path. -/
theorem Mapped.leaf_of {q : Path} {s : Scalar} (mapped : Mapped R p n n')
    (found : n.get? q = some (.leaf s)) : ∃ t, n'.get? q = some (.leaf t) ∧ R (p ++ q) s t := by
  have both := mapped.get? q
  rw [found] at both
  generalize n'.get? q = here at both ⊢
  cases both with
  | @some _ m below =>
    match m, below with
    | .leaf t, holds => exact ⟨t, rfl, holds⟩

theorem Mapped.isMap (mapped : Mapped R p n n') : n'.isMap = n.isMap := by
  match n, n', mapped with
  | .leaf s, .leaf t, _ => rfl
  | .map es, .map fs, _ => rfl
  | .list xs, .list ys, _ => rfl

/-- That keys are distinct is a matter of the shape. -/
theorem Mapped.distinctKeys (mapped : Mapped R p n n') (distinct : n.DistinctKeys) :
    n'.DistinctKeys := by
  induction distinct generalizing p n' with
  | leaf s =>
    match n', mapped with
    | .leaf t, _ => exact .leaf t
  | map distinct _ ih =>
    match n', mapped with
    | .map fs, holds =>
      have keys := MappedEntries.keys holds
      refine .map (keys ▸ distinct) fun k child' mem => ?_
      obtain ⟨child, mem, below⟩ := MappedEntries.entry holds mem
      exact ih k child mem below
  | list _ ih =>
    match n', mapped with
    | .list ys, holds =>
      refine .list fun y mem => ?_
      obtain ⟨j, x, there, below⟩ := MappedElements.element holds mem
      exact ih x there below

/-- Being well formed is a matter of the shape. -/
theorem Mapped.wellFormed (mapped : Mapped R p n n') (wf : n.WellFormed) : n'.WellFormed := by
  induction wf generalizing p n' with
  | leaf s =>
    match n', mapped with
    | .leaf t, _ => exact .leaf t
  | map distinct names _ ih =>
    match n', mapped with
    | .map fs, holds =>
      have keys := MappedEntries.keys holds
      refine .map (keys ▸ distinct) (fun k child' mem => ?_) (fun k child' mem => ?_)
      · obtain ⟨child, mem, -⟩ := MappedEntries.entry holds mem
        exact names k child mem
      · obtain ⟨child, mem, below⟩ := MappedEntries.entry holds mem
        exact ih k child mem below
  | list fits _ ih =>
    match n', mapped with
    | .list ys, holds =>
      have length := MappedElements.length holds
      refine .list (length ▸ fits) fun y mem => ?_
      obtain ⟨j, x, there, below⟩ := MappedElements.element holds mem
      exact ih x there below

end Mapped

/-! ### The leaves of mapped trees -/

section Listed

variable {R S T : Path → Scalar → Scalar → Prop}

/-- Two leaves are listed under one path, and `R` relates them. -/
def SamePlace (R : Path → Scalar → Scalar → Prop) (leaf leaf' : Path × Scalar) : Prop :=
  leaf'.1 = leaf.1 ∧ R leaf.1 leaf.2 leaf'.2

mutual

/-- Mapped trees list their leaves under the same paths, in the same order. -/
theorem Mapped.leaves {p : Path} : ∀ {n n' : Node}, Mapped R p n n' →
    List.Forall₂ (SamePlace R) (n.leaves p) (n'.leaves p)
  | .leaf _, .leaf _, holds => .cons ⟨rfl, holds⟩ .nil
  | .map _, .map _, mapped => MappedEntries.leaves mapped
  | .list _, .list _, mapped => MappedElements.leaves mapped

theorem MappedEntries.leaves {p : Path} : ∀ {es fs : List (String × Node)}, MappedEntries R p es fs →
    List.Forall₂ (SamePlace R) (leavesOfEntries p es) (leavesOfEntries p fs)
  | [], [], _ => .nil
  | (_, _) :: _, (_, _) :: _, ⟨rfl, here, later⟩ =>
    List.rel_append (Mapped.leaves here) (MappedEntries.leaves later)

theorem MappedElements.leaves {p : Path} {i : Nat} : ∀ {xs ys : List Node},
    MappedElements R p i xs ys →
      List.Forall₂ (SamePlace R) (leavesOfElements p i xs) (leavesOfElements p i ys)
  | [], [], _ => .nil
  | _ :: _, _ :: _, ⟨here, later⟩ =>
    List.rel_append (Mapped.leaves here) (MappedElements.leaves later)

end

mutual

/-- Leaving leaves as they are. -/
theorem Mapped.refl (same : ∀ p s, R p s s) {p : Path} : ∀ {n : Node}, Mapped R p n n
  | .leaf s => same p s
  | .map _ => MappedEntries.refl same
  | .list _ => MappedElements.refl same
termination_by structural n => n

theorem MappedEntries.refl (same : ∀ p s, R p s s) {p : Path} : ∀ {es : List (String × Node)},
    MappedEntries R p es es
  | [] => trivial
  | (_, _) :: _ => ⟨rfl, Mapped.refl same, MappedEntries.refl same⟩
termination_by structural es => es

theorem MappedElements.refl (same : ∀ p s, R p s s) {p : Path} {i : Nat} : ∀ {xs : List Node},
    MappedElements R p i xs xs
  | [] => trivial
  | _ :: _ => ⟨Mapped.refl same, MappedElements.refl same⟩
termination_by structural xs => xs

end

mutual

/-- Replacing leaves twice. -/
theorem Mapped.trans {p : Path} (step : ∀ p s t u, R p s t → S p t u → T p s u) :
    ∀ {n n' n'' : Node}, Mapped R p n n' → Mapped S p n' n'' → Mapped T p n n''
  | .leaf _, .leaf _, .leaf _, first, second => step p _ _ _ first second
  | .map _, .map _, .map _, first, second => MappedEntries.trans step first second
  | .list _, .list _, .list _, first, second => MappedElements.trans step first second
termination_by structural n => n

theorem MappedEntries.trans {p : Path} (step : ∀ p s t u, R p s t → S p t u → T p s u) :
    ∀ {es fs gs : List (String × Node)},
      MappedEntries R p es fs → MappedEntries S p fs gs → MappedEntries T p es gs
  | [], [], [], _, _ => trivial
  | (_, _) :: _, (_, _) :: _, (_, _) :: _, ⟨rfl, here, later⟩, ⟨rfl, here', later'⟩ =>
    ⟨rfl, Mapped.trans step here here', MappedEntries.trans step later later'⟩
termination_by structural es => es

theorem MappedElements.trans {p : Path} {i : Nat} (step : ∀ p s t u, R p s t → S p t u → T p s u) :
    ∀ {xs ys zs : List Node},
      MappedElements R p i xs ys → MappedElements S p i ys zs → MappedElements T p i xs zs
  | [], [], [], _, _ => trivial
  | _ :: _, _ :: _, _ :: _, ⟨here, later⟩, ⟨here', later'⟩ =>
    ⟨Mapped.trans step here here', MappedElements.trans step later later'⟩
termination_by structural xs => xs

end

mutual

/-- Replacing leaves the other way round. -/
theorem Mapped.symm {p : Path} : ∀ {n n' : Node}, Mapped R p n n' →
    Mapped (fun q s t => R q t s) p n' n
  | .leaf _, .leaf _, holds => holds
  | .map _, .map _, mapped => MappedEntries.symm mapped
  | .list _, .list _, mapped => MappedElements.symm mapped
termination_by structural n => n

theorem MappedEntries.symm {p : Path} : ∀ {es fs : List (String × Node)}, MappedEntries R p es fs →
    MappedEntries (fun q s t => R q t s) p fs es
  | [], [], _ => trivial
  | (_, _) :: _, (_, _) :: _, ⟨rfl, here, later⟩ =>
    ⟨rfl, Mapped.symm here, MappedEntries.symm later⟩
termination_by structural es => es

theorem MappedElements.symm {p : Path} {i : Nat} : ∀ {xs ys : List Node},
    MappedElements R p i xs ys → MappedElements (fun q s t => R q t s) p i ys xs
  | [], [], _ => trivial
  | _ :: _, _ :: _, ⟨here, later⟩ => ⟨Mapped.symm here, MappedElements.symm later⟩
termination_by structural xs => xs

end

mutual

/-- A tree that stands below `place` is replaced like one that stands by itself. -/
theorem mapped_append_iff (place : Path) {p : Path} : ∀ {n n' : Node},
    Mapped R (place ++ p) n n' ↔ Mapped (fun q => R (place ++ q)) p n n'
  | .leaf _, .leaf _ => Iff.rfl
  | .map _, .map _ => mappedEntries_append_iff place
  | .list _, .list _ => mappedElements_append_iff place
  | .leaf _, .map _ | .leaf _, .list _ | .map _, .leaf _ | .map _, .list _ | .list _, .leaf _
  | .list _, .map _ => Iff.rfl
termination_by structural n => n

theorem mappedEntries_append_iff (place : Path) {p : Path} : ∀ {es fs : List (String × Node)},
    MappedEntries R (place ++ p) es fs ↔ MappedEntries (fun q => R (place ++ q)) p es fs
  | [], [] | [], _ :: _ | _ :: _, [] => Iff.rfl
  | (k, child) :: es, (k', child') :: fs => by
    have path : Path.key (place ++ p) k = place ++ p.key k := List.append_assoc ..
    rw [MappedEntries, MappedEntries, path, mapped_append_iff place, mappedEntries_append_iff place]
termination_by structural es => es

theorem mappedElements_append_iff (place : Path) {p : Path} {i : Nat} : ∀ {xs ys : List Node},
    MappedElements R (place ++ p) i xs ys ↔ MappedElements (fun q => R (place ++ q)) p i xs ys
  | [], [] | [], _ :: _ | _ :: _, [] => Iff.rfl
  | x :: xs, y :: ys => by
    have path : Path.index (place ++ p) i = place ++ p.index i := List.append_assoc ..
    rw [MappedElements, MappedElements, path, mapped_append_iff place,
      mappedElements_append_iff place]
termination_by structural xs => xs

end

mutual

/-- Trees in which every leaf is replaced by the same are equal. -/
theorem Mapped.unique {p : Path} : ∀ {n a b : Node}, Mapped R p n a → Mapped S p n b →
    (∀ leaf ∈ n.leaves p, ∀ t u, R leaf.1 leaf.2 t → S leaf.1 leaf.2 u → t = u) → a = b
  | .leaf s, .leaf t, .leaf u, first, second, same =>
    congrArg Node.leaf (same (p, s) (List.mem_singleton.mpr rfl) t u first second)
  | .map _, .map _, .map _, first, second, same =>
    congrArg Node.map (MappedEntries.unique first second same)
  | .list _, .list _, .list _, first, second, same =>
    congrArg Node.list (MappedElements.unique first second same)
termination_by structural n => n

theorem MappedEntries.unique {p : Path} : ∀ {es fs gs : List (String × Node)},
    MappedEntries R p es fs → MappedEntries S p es gs →
    (∀ leaf ∈ leavesOfEntries p es, ∀ t u, R leaf.1 leaf.2 t → S leaf.1 leaf.2 u → t = u) → fs = gs
  | [], [], [], _, _, _ => rfl
  | (_, _) :: _, (_, _) :: _, (_, _) :: _, ⟨rfl, here, later⟩, ⟨rfl, here', later'⟩, same => by
    have first := Mapped.unique here here' fun leaf mem => same leaf (List.mem_append_left _ mem)
    have rest := MappedEntries.unique later later' fun leaf mem =>
      same leaf (List.mem_append_right _ mem)
    rw [first, rest]
termination_by structural es => es

theorem MappedElements.unique {p : Path} {i : Nat} : ∀ {xs ys zs : List Node},
    MappedElements R p i xs ys → MappedElements S p i xs zs →
    (∀ leaf ∈ leavesOfElements p i xs, ∀ t u, R leaf.1 leaf.2 t → S leaf.1 leaf.2 u → t = u) →
      ys = zs
  | [], [], [], _, _, _ => rfl
  | _ :: _, _ :: _, _ :: _, ⟨here, later⟩, ⟨here', later'⟩, same => by
    have first := Mapped.unique here here' fun leaf mem => same leaf (List.mem_append_left _ mem)
    have rest := MappedElements.unique later later' fun leaf mem =>
      same leaf (List.mem_append_right _ mem)
    rw [first, rest]
termination_by structural xs => xs

end

section Functions

variable {f g : Path → Scalar → Scalar} {p : Path} {n a b : Node}

/-- If a function says what becomes of each leaf, the leaves are those that it gives. -/
theorem Mapped.leaves_eq (mapped : Mapped (fun q s t => t = f q s) p n a) :
    a.leaves p = (n.leaves p).map fun leaf => (leaf.1, f leaf.1 leaf.2) := by
  have related := mapped.leaves
  generalize n.leaves p = before, a.leaves p = after at related
  induction related with
  | nil => rfl
  | cons same _ ih =>
    obtain ⟨path, scalar⟩ := same
    rw [List.map_cons, ← ih, ← scalar, ← path]

/-- Two functions give the same tree exactly if they agree on its leaves. -/
theorem Mapped.eq_iff (first : Mapped (fun q s t => t = f q s) p n a)
    (second : Mapped (fun q s t => t = g q s) p n b) :
    a = b ↔ ∀ q s, (q, s) ∈ n.leaves p → f q s = g q s := by
  constructor
  · rintro rfl q s mem
    have leaves := first.leaves_eq.symm.trans second.leaves_eq
    exact (Prod.mk.inj (List.map_inj_left.mp leaves _ mem)).2
  · intro agree
    refine first.unique second fun leaf mem t u left right => ?_
    rw [left, right, agree leaf.1 leaf.2 mem]

end Functions

theorem Mapped.mem_leaves {p q : Path} {n n' : Node} {t : Scalar} (mapped : Mapped R p n n')
    (mem : (q, t) ∈ n'.leaves p) : ∃ s, (q, s) ∈ n.leaves p ∧ R q s t := by
  have related := mapped.leaves
  generalize n.leaves p = before, n'.leaves p = after at related mem
  induction related with
  | nil => cases mem
  | @cons leaf leaf' _ _ here _ ih =>
    rcases List.mem_cons.mp mem with same | later
    · subst same
      obtain ⟨rfl, holds⟩ := here
      exact ⟨leaf.2, List.mem_cons_self, holds⟩
    · obtain ⟨s, mem, holds⟩ := ih later
      exact ⟨s, List.mem_cons_of_mem _ mem, holds⟩

/-- The paths of the leaves stay the same. -/
theorem Mapped.paths {p : Path} {n n' : Node} (mapped : Mapped R p n n') :
    (n'.leaves p).map Prod.fst = (n.leaves p).map Prod.fst := by
  have related := mapped.leaves
  generalize n.leaves p = before, n'.leaves p = after at related
  induction related with
  | nil => rfl
  | cons same _ ih => rw [List.map_cons, List.map_cons, same.1, ih]

end Listed

/-! ## Replacing leaves one by one -/

section Replace

universe u

variable {m : Type → Type u} [Monad m] [LawfulMonad m] {f : Path → Scalar → m Scalar}
  {R : Path → Scalar → Scalar → Prop}

mutual

theorem mapLeaves?_mapped (each : ∀ p s, Always (R p s) (f p s)) (p : Path) : ∀ n : Node,
    Always (fun changed => Mapped R p n (changed.getD n)) (mapLeaves? f p n)
  | .leaf s => by
    rw [mapLeaves?]
    refine (each p s).bind fun t holds => .pure ?_
    -- a leaf that would be replaced by itself is kept
    split
    · next same =>
      subst same
      exact holds
    · exact holds
  | .map es => by
    rw [mapLeaves?]
    refine (mapEntries?_mapped each p es).bind fun changed holds => .pure ?_
    cases changed <;> exact holds
  | .list xs => by
    rw [mapLeaves?]
    refine (mapElements?_mapped each p 0 xs).bind fun changed holds => .pure ?_
    cases changed <;> exact holds

theorem mapEntries?_mapped (each : ∀ p s, Always (R p s) (f p s)) (p : Path) :
    ∀ es : List (String × Node),
      Always (fun changed => MappedEntries R p es (changed.getD es)) (mapEntries? f p es)
  | [] => by
    rw [mapEntries?]
    exact .pure trivial
  | (k, child) :: rest => by
    rw [mapEntries?]
    refine (mapLeaves?_mapped each (p.key k) child).bind fun child? here => ?_
    refine (mapEntries?_mapped each p rest).bind fun rest? later => .pure ?_
    -- what did not change is taken from the tree as it was
    cases child? <;> cases rest? <;> exact ⟨rfl, here, later⟩

theorem mapElements?_mapped (each : ∀ p s, Always (R p s) (f p s)) (p : Path) (i : Nat) :
    ∀ xs : List Node,
      Always (fun changed => MappedElements R p i xs (changed.getD xs)) (mapElements? f p i xs)
  | [] => by
    rw [mapElements?]
    exact .pure trivial
  | child :: rest => by
    rw [mapElements?]
    refine (mapLeaves?_mapped each (p.index i) child).bind fun child? here => ?_
    refine (mapElements?_mapped each p (i + 1) rest).bind fun rest? later => .pure ?_
    cases child? <;> cases rest? <;> exact ⟨here, later⟩

end

/-- Replacing leaves leads to a mapped tree. -/
theorem mapLeaves_mapped (each : ∀ p s, Always (R p s) (f p s)) (p : Path) (n : Node) :
    Always (Mapped R p n) (n.mapLeaves f p) := by
  rw [mapLeaves]
  exact (mapLeaves?_mapped each p n).bind fun changed holds => .pure holds

/-- If it succeeds, every leaf was replaced by the result for it. -/
theorem mapped_of_mapLeaves_ok {ε : Type} {f : Path → Scalar → Except ε Scalar} {p : Path}
    {n n' : Node} (done : n.mapLeaves f p = .ok n') : Mapped (fun p s t => f p s = .ok t) p n n' :=
  (mapLeaves_mapped (fun p s => Always.ok_self (f p s)) p n).of_ok done

end Replace

end LayeredConfig.Node
