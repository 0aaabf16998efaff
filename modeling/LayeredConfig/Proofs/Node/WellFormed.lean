import LayeredConfig.Node
import LayeredConfig.Proofs.Entries
import LayeredConfig.Proofs.Path.RoundTrip

/-!
# Well-formed trees

The keys of a map are distinct. The type of trees does not say so; `DistinctKeys` does, and what follows
is why it matters: in such a tree a leaf is listed under exactly the path that leads to it
(`mem_leaves_iff`), and every leaf is listed under a path of its own (`nodup_leaves`).

In a configuration the keys are also names that the text of a path can show, and no list is so long that
its positions could not be shown. That is `WellFormed`, and then all these paths have texts that are read
back (`WellFormed.readable`).
-/

namespace LayeredConfig.Node

/-- Induction over a tree, from the children of a node to the node. -/
@[elab_as_elim]
theorem induction {motive : Node → Prop} (leaf : ∀ s, motive (.leaf s))
    (map : ∀ es, (∀ k child, (k, child) ∈ es → motive child) → motive (.map es))
    (list : ∀ xs, (∀ x ∈ xs, motive x) → motive (.list xs)) (n : Node) : motive n := by
  cases n with
  | leaf s => exact leaf s
  | map es => exact map es fun _ child _mem => induction leaf map list child
  | list xs => exact list xs fun x _mem => induction leaf map list x
termination_by sizeOf n
decreasing_by
  · have smaller := List.sizeOf_lt_of_mem _mem
    simp only [Prod.mk.sizeOf_spec, Node.map.sizeOf_spec] at smaller ⊢
    omega
  · have smaller := List.sizeOf_lt_of_mem _mem
    simp only [Node.list.sizeOf_spec]
    omega

/-- A tree whose maps have distinct keys. -/
inductive DistinctKeys : Node → Prop
  | leaf (s : Scalar) : DistinctKeys (.leaf s)
  | map {es : List (String × Node)} (distinct : (Entries.keys es).Nodup)
      (children : ∀ k child, (k, child) ∈ es → DistinctKeys child) : DistinctKeys (.map es)
  | list {xs : List Node} (children : ∀ x ∈ xs, DistinctKeys x) : DistinctKeys (.list xs)

namespace DistinctKeys

variable {child : Node} {es : List (String × Node)} {xs : List Node} {k : String}

theorem distinct (keys : DistinctKeys (.map es)) : (Entries.keys es).Nodup := by
  cases keys with
  | map distinct _ => exact distinct

theorem entry (keys : DistinctKeys (.map es)) (mem : (k, child) ∈ es) : child.DistinctKeys := by
  cases keys with
  | map _ children => exact children k child mem

theorem element (keys : DistinctKeys (.list xs)) (mem : child ∈ xs) : child.DistinctKeys := by
  cases keys with
  | list children => exact children child mem

theorem put (keys : DistinctKeys (.map es)) (new : child.DistinctKeys) (k : String) :
    DistinctKeys (.map (Entries.put es k child)) := by
  refine .map (Entries.nodup_keys_put keys.distinct k child) fun k' child' mem => ?_
  rcases Entries.mem_put mem with same | old
  · cases same
    exact new
  · exact keys.entry old

theorem empty : DistinctKeys .empty :=
  .map List.nodup_nil fun _ _ mem => nomatch mem

end DistinctKeys

/-- A tree whose maps have distinct keys that are names, and whose lists have positions within the
limit. -/
inductive WellFormed : Node → Prop
  | leaf (s : Scalar) : WellFormed (.leaf s)
  | map {es : List (String × Node)} (distinct : (Entries.keys es).Nodup)
      (names : ∀ k child, (k, child) ∈ es → Path.IsName k)
      (children : ∀ k child, (k, child) ∈ es → WellFormed child) : WellFormed (.map es)
  | list {xs : List Node} (fits : xs.length ≤ Path.indexLimit)
      (children : ∀ x ∈ xs, WellFormed x) : WellFormed (.list xs)

namespace WellFormed

variable {n child : Node} {es : List (String × Node)} {xs : List Node} {k : String} {i : Nat}

theorem empty : WellFormed .empty :=
  .map List.nodup_nil (fun _ _ mem => nomatch mem) (fun _ _ mem => nomatch mem)

theorem distinctKeys (wf : n.WellFormed) : n.DistinctKeys := by
  induction wf with
  | leaf s => exact .leaf s
  | map distinct _ _ ih => exact .map distinct ih
  | list _ _ ih => exact .list ih

theorem entry (wf : WellFormed (.map es)) (found : Entries.get? es k = some child) :
    Path.IsName k ∧ child.WellFormed := by
  have mem := Entries.mem_of_get? found
  cases wf with
  | map _ names children => exact ⟨names k child mem, children k child mem⟩

theorem element (wf : WellFormed (.list xs)) (found : xs[i]? = some child) :
    i < Path.indexLimit ∧ child.WellFormed := by
  obtain ⟨inside, rfl⟩ := List.getElem?_eq_some_iff.mp found
  cases wf with
  | list fits children => exact ⟨by omega, children _ (List.getElem_mem inside)⟩

theorem put (wf : WellFormed (.map es)) (isName : Path.IsName k) (new : child.WellFormed) :
    WellFormed (.map (Entries.put es k child)) := by
  cases wf with
  | map distinct names children =>
    refine .map (Entries.nodup_keys_put distinct k child) (fun k' child' mem => ?_)
      (fun k' child' mem => ?_)
    · rcases Entries.mem_put mem with same | old
      · cases same
        exact isName
      · exact names k' child' old
    · rcases Entries.mem_put mem with same | old
      · cases same
        exact new
      · exact children k' child' old

theorem set (wf : WellFormed (.list xs)) (new : child.WellFormed) (i : Nat) :
    WellFormed (.list (xs.set i child)) := by
  cases wf with
  | list fits children =>
    refine .list (by rwa [List.length_set]) fun x mem => ?_
    rcases List.mem_or_eq_of_mem_set mem with old | rfl
    · exact children x old
    · exact new

end WellFormed

/-! ## Following a path -/

section Paths

variable {n m child : Node} {es : List (String × Node)} {xs : List Node} {p q : Path}

@[simp]
theorem get?_nil (n : Node) : n.get? [] = some n := by
  cases n <;> rfl

theorem get?_name (es : List (String × Node)) (k : String) (p : Path) :
    (Node.map es).get? (.name k :: p) = (Entries.get? es k).bind (·.get? p) := by
  rw [get?]
  cases Entries.get? es k <;> rfl

theorem get?_index (xs : List Node) (i : Nat) (p : Path) :
    (Node.list xs).get? (.index i :: p) = xs[i]?.bind (·.get? p) := by
  rw [get?]
  cases xs[i]? <;> rfl

@[simp]
theorem get?_leaf_cons (s : Scalar) (step : Step) (p : Path) :
    (Node.leaf s).get? (step :: p) = none := by
  cases step <;> rfl

/-- Following one path after the other. -/
theorem get?_append (n : Node) (p q : Path) : n.get? (p ++ q) = (n.get? p).bind (·.get? q) := by
  induction p generalizing n with
  | nil => simp
  | cons step rest ih =>
    rw [List.cons_append]
    match n, step with
    | .leaf s, step => simp
    | .map es, .name k => cases found : Entries.get? es k <;> simp [get?_name, found, ih]
    | .map es, .index i => rfl
    | .list xs, .index i => cases found : xs[i]? <;> simp [get?_index, found, ih]
    | .list xs, .name k => rfl

/-- Following a path one step at a time. -/
theorem get?_cons (n : Node) (step : Step) (p : Path) :
    n.get? (step :: p) = (n.get? [step]).bind (·.get? p) :=
  get?_append n [step] p

/-- Every node of a well-formed tree is well formed, and the path to it has a text that reads back. -/
theorem WellFormed.get? (wf : n.WellFormed) (found : n.get? p = some m) :
    p.Readable ∧ m.WellFormed := by
  induction p generalizing n with
  | nil =>
    cases (get?_nil n).symm.trans found
    exact ⟨fun _ mem => (nomatch mem), wf⟩
  | cons step rest ih =>
    match n, step with
    | .leaf s, step => simp at found
    | .map es, .name k =>
      rw [get?_name] at found
      obtain ⟨child, here, later⟩ := Option.bind_eq_some_iff.mp found
      obtain ⟨isName, below⟩ := wf.entry here
      obtain ⟨readable, wf'⟩ := ih below later
      exact ⟨List.forall_mem_cons.mpr ⟨isName, readable⟩, wf'⟩
    | .map es, .index i => cases found
    | .list xs, .index i =>
      rw [get?_index] at found
      obtain ⟨child, here, later⟩ := Option.bind_eq_some_iff.mp found
      obtain ⟨fits, below⟩ := wf.element here
      obtain ⟨readable, wf'⟩ := ih below later
      exact ⟨List.forall_mem_cons.mpr ⟨fits, readable⟩, wf'⟩
    | .list xs, .name k => cases found

end Paths

/-! ## The leaves and their paths -/

section Leaves

variable {n : Node} {es : List (String × Node)} {xs : List Node} {place p q : Path} {s : Scalar}
  {leaf : Path × Scalar}

theorem mem_leavesOfEntries_iff :
    leaf ∈ leavesOfEntries place es ↔
      ∃ k, ∃ child : Node, (k, child) ∈ es ∧ leaf ∈ child.leaves (place.key k) := by
  induction es with
  | nil => simp [leavesOfEntries]
  | cons entry rest ih =>
    obtain ⟨k, child⟩ := entry
    rw [leavesOfEntries, List.mem_append, ih]
    constructor
    · rintro (here | ⟨k', child', mem, later⟩)
      · exact ⟨k, child, List.mem_cons_self, here⟩
      · exact ⟨k', child', List.mem_cons_of_mem _ mem, later⟩
    · rintro ⟨k', child', mem, found⟩
      rcases List.mem_cons.mp mem with same | later
      · cases same
        exact .inl found
      · exact .inr ⟨k', child', later, found⟩

theorem mem_leavesOfElements_iff {start : Nat} :
    leaf ∈ leavesOfElements place start xs ↔
      ∃ i, ∃ child : Node, xs[i]? = some child ∧ leaf ∈ child.leaves (place.index (start + i)) := by
  induction xs generalizing start with
  | nil => simp [leavesOfElements]
  | cons x rest ih =>
    rw [leavesOfElements, List.mem_append, ih]
    constructor
    · rintro (here | ⟨i, child, found, later⟩)
      · exact ⟨0, x, rfl, here⟩
      · exact ⟨i + 1, child, found, by rwa [Nat.add_right_comm] at later⟩
    · rintro ⟨i, child, found, mem⟩
      cases i with
      | zero =>
        cases found
        exact .inl mem
      | succ i => exact .inr ⟨i, child, found, by rwa [Nat.add_right_comm]⟩

/-- What is listed as a leaf is where its path leads, if keys are distinct. -/
theorem get?_of_mem_leaves (keys : n.DistinctKeys) (mem : leaf ∈ n.leaves place) :
    ∃ p, leaf.1 = place ++ p ∧ n.get? p = some (.leaf leaf.2) := by
  induction n using Node.induction generalizing place with
  | leaf s =>
    cases List.mem_singleton.mp mem
    exact ⟨[], by simp, rfl⟩
  | map es ih =>
    obtain ⟨k, child, here, below⟩ := mem_leavesOfEntries_iff.mp mem
    have found := Entries.get?_eq_some_of_mem keys.distinct here
    obtain ⟨p, path, leads⟩ := ih k child here (keys.entry here) below
    refine ⟨.name k :: p, by simp [path, Path.key], ?_⟩
    rw [get?_name, found]
    exact leads
  | list xs ih =>
    obtain ⟨i, child, found, below⟩ := mem_leavesOfElements_iff.mp mem
    have mem := List.mem_of_getElem? found
    obtain ⟨p, path, leads⟩ := ih child mem (keys.element mem) below
    refine ⟨.index i :: p, by simp [path, Path.index], ?_⟩
    rw [get?_index, found]
    exact leads

/-- A leaf is listed under exactly the path that leads to it, if keys are distinct. -/
theorem mem_leaves_iff (keys : n.DistinctKeys) :
    (p, s) ∈ n.leaves .root ↔ n.get? p = some (.leaf s) := by
  constructor
  · intro mem
    obtain ⟨q, path, leads⟩ := get?_of_mem_leaves keys mem
    cases path
    exact leads
  · intro leads
    exact mem_leaves_of_get? .root leads

/-- The paths of the leaves of a well-formed tree have texts that read back. -/
theorem WellFormed.readable (wf : n.WellFormed) (mem : (p, s) ∈ n.leaves .root) : p.Readable :=
  (wf.get? ((mem_leaves_iff wf.distinctKeys).mp mem)).1

theorem starts_of_mem_leaves (mem : leaf ∈ n.leaves place) : place <+: leaf.1 := by
  induction n using Node.induction generalizing place with
  | leaf s =>
    cases List.mem_singleton.mp mem
    exact List.prefix_refl _
  | map es ih =>
    obtain ⟨k, child, here, below⟩ := mem_leavesOfEntries_iff.mp mem
    exact (List.prefix_append _ _).trans (ih k child here below)
  | list xs ih =>
    obtain ⟨i, child, found, below⟩ := mem_leavesOfElements_iff.mp mem
    exact (List.prefix_append _ _).trans (ih child (List.mem_of_getElem? found) below)

/-- Paths that go on from one place by different steps differ. -/
theorem ne_of_different_steps {a b : Step} {x y : Path} (differ : a ≠ b) (ha : place ++ [a] <+: x)
    (hb : place ++ [b] <+: y) : x ≠ y := by
  rintro rfl
  obtain ⟨t, rfl⟩ := ha
  obtain ⟨u, same⟩ := hb
  simp only [List.append_assoc, List.append_cancel_left_eq, List.singleton_append,
    List.cons.injEq] at same
  exact differ same.1.symm

theorem nodup_leavesOfEntries (distinct : (Entries.keys es).Nodup)
    (each : ∀ k child, (k, child) ∈ es → ((child.leaves (place.key k)).map Prod.fst).Nodup) :
    ((leavesOfEntries place es).map Prod.fst).Nodup := by
  induction es with
  | nil => simp [leavesOfEntries]
  | cons entry rest ih =>
    obtain ⟨k, child⟩ := entry
    simp only [Entries.keys, List.map_cons, List.nodup_cons] at distinct
    rw [leavesOfEntries, List.map_append, List.nodup_append]
    refine ⟨each k child List.mem_cons_self,
      ih distinct.2 fun k' child' mem => each k' child' (List.mem_cons_of_mem _ mem), ?_⟩
    intro x here y later
    -- the two paths go on from this place by different keys
    obtain ⟨leaf, mem, rfl⟩ := List.mem_map.mp here
    obtain ⟨leaf', mem', rfl⟩ := List.mem_map.mp later
    obtain ⟨k', child', inRest, below⟩ := mem_leavesOfEntries_iff.mp mem'
    refine ne_of_different_steps ?_ (starts_of_mem_leaves mem) (starts_of_mem_leaves below)
    intro same
    cases same
    exact distinct.1 (Entries.mem_keys_of_mem inRest)

theorem nodup_leavesOfElements {start : Nat}
    (each : ∀ x ∈ xs, ∀ i, ((x.leaves (place.index i)).map Prod.fst).Nodup) :
    ((leavesOfElements place start xs).map Prod.fst).Nodup := by
  induction xs generalizing start with
  | nil => simp [leavesOfElements]
  | cons x rest ih =>
    rw [leavesOfElements, List.map_append, List.nodup_append]
    refine ⟨each x List.mem_cons_self start, ih fun y mem => each y (List.mem_cons_of_mem _ mem), ?_⟩
    intro a here b later
    obtain ⟨leaf, mem, rfl⟩ := List.mem_map.mp here
    obtain ⟨leaf', mem', rfl⟩ := List.mem_map.mp later
    obtain ⟨i, child, _, below⟩ := mem_leavesOfElements_iff.mp mem'
    refine ne_of_different_steps ?_ (starts_of_mem_leaves mem) (starts_of_mem_leaves below)
    intro same
    have := Step.index.inj same
    omega

/-- No two leaves are listed under one path, if keys are distinct. -/
theorem nodup_leaves (keys : n.DistinctKeys) (place : Path) :
    ((n.leaves place).map Prod.fst).Nodup := by
  induction n using Node.induction generalizing place with
  | leaf s => simp [leaves]
  | map es ih =>
    exact nodup_leavesOfEntries keys.distinct fun k child mem => ih k child mem (keys.entry mem) _
  | list xs ih =>
    exact nodup_leavesOfElements fun x mem i => ih x mem (keys.element mem) _

end Leaves

end LayeredConfig.Node
