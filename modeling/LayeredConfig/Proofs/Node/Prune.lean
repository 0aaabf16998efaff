import LayeredConfig.Node.Leaves
import LayeredConfig.Proofs.Node.Write

/-!
# Taking away keeps trees well formed

Whatever is taken away, by a path or leaf by leaf, what is left of a map has some of its keys and what is
left of a list is no longer than before. `Edit.Sound` is the invariant of both recursions.
-/

namespace LayeredConfig

/-- The edit of `n` leaves it, or takes it away, or makes another well-formed tree of its kind. -/
def Edit.Sound (n : Node) : Edit → Prop
  | .unchanged => True
  | .replaced n' => n'.isMap = n.isMap ∧ n'.WellFormed
  | .removed => True

/-- The root that is left is a well-formed map, if it was one before. -/
theorem Edit.Sound.apply {n n' : Node} {edit : Edit} (sound : edit.Sound n) (wf : n.WellFormed)
    (left : edit.apply n = some n') : n'.isMap = n.isMap ∧ n'.WellFormed := by
  cases edit with
  | unchanged =>
    cases left
    exact ⟨rfl, wf⟩
  | replaced node =>
    cases left
    exact sound
  | removed => cases left

namespace Node

variable {n n' child : Node} {es kept : List (String × Node)} {xs rest : List Node} {o : Pruning}

/-! ## Parts of containers -/

/-- Some of the entries of a well-formed map, in their order and with well-formed trees. -/
theorem WellFormed.some_entries (wf : WellFormed (.map es))
    (some : List.Sublist (Entries.keys kept) (Entries.keys es))
    (children : ∀ k child, (k, child) ∈ kept → child.WellFormed) : WellFormed (.map kept) := by
  cases wf with
  | map distinct names _ =>
    refine .map (distinct.sublist some) (fun k child mem => ?_) children
    obtain ⟨⟨_, old⟩, before, rfl⟩ := List.mem_map.mp (some.subset (Entries.mem_keys_of_mem mem))
    exact names _ old before

theorem ofEntries_sound (wf : WellFormed (.map kept)) :
    (Edit.ofEntries o kept).Sound (.map es) := by
  unfold Edit.ofEntries
  split
  · exact trivial
  · exact ⟨rfl, wf⟩

theorem ofElements_sound (wf : WellFormed (.list rest)) :
    (Edit.ofElements o rest).Sound (.list xs) := by
  unfold Edit.ofElements
  split
  · exact trivial
  · exact ⟨rfl, wf⟩

/-! ## By path -/

theorem WellFormed.erase (wf : WellFormed (.map es)) (k : String) :
    WellFormed (.map (Entries.erase es k)) := by
  have some := Entries.erase_sublist es k
  refine wf.some_entries (some.map Prod.fst) fun k' child mem => ?_
  cases wf with
  | map _ _ children => exact children k' child (some.subset mem)

theorem WellFormed.eraseIdx (wf : WellFormed (.list xs)) (i : Nat) :
    WellFormed (.list (xs.eraseIdx i)) := by
  cases wf with
  | list fits children =>
    have some := List.eraseIdx_sublist xs i
    exact .list (Nat.le_trans some.length_le fits) fun x mem => children x (some.subset mem)

/-- At the end of the path the child goes as a whole. -/
theorem removed_or_sound {edit : Edit} (sound : edit.Sound child) (last : Bool) :
    (if last then Edit.removed else edit).Sound child := by
  split
  · exact trivial
  · exact sound

theorem removeEdit_sound (wf : n.WellFormed) (path : Path) : (n.removeEdit o path).Sound n := by
  induction path generalizing n with
  | nil => cases n <;> exact trivial
  | cons step rest ih =>
    match n, step with
    | .leaf s, .name k => exact trivial
    | .leaf s, .index i => exact trivial
    | .map es, .index i => exact trivial
    | .list xs, .name k => exact trivial
    | .map es, .name k =>
      rw [removeEdit]
      split
      · exact trivial
      · next child found =>
        have below := removed_or_sound (ih (wf.entry found).2) rest.isEmpty
        split
        · exact trivial
        · next new made =>
          rw [made] at below
          exact ofEntries_sound (wf.put (wf.entry found).1 below.2)
        · exact ofEntries_sound (wf.erase k)
    | .list xs, .index i =>
      rw [removeEdit]
      split
      · exact trivial
      · next child found =>
        have below := removed_or_sound (ih (wf.element found).2) rest.isEmpty
        split
        · exact trivial
        · next new made =>
          rw [made] at below
          exact ofElements_sound (wf.set below.2 i)
        · exact ofElements_sound (wf.eraseIdx i)

/-- A well-formed map from which something is taken away is a well-formed map. -/
theorem WellFormed.remove (wf : n.WellFormed) {path : Path} (left : n.remove path o = some n') :
    n'.isMap = n.isMap ∧ n'.WellFormed :=
  (removeEdit_sound wf path).apply wf left

/-! ## Leaf by leaf -/

section Filter

universe u

variable {m : Type → Type u} [Monad m] [LawfulMonad m]

mutual

theorem filterEdit_sound (keep : Path → Scalar → m Bool) (o : Pruning) (p : Path) :
    ∀ n : Node, n.WellFormed → Always (fun edit => edit.Sound n) (filterEdit keep o p n)
  | .leaf s, _ => by
    rw [filterEdit]
    refine (Always.of_forall (P := fun _ => True) (fun _ => trivial) _).bind fun kept _ => .pure ?_
    cases kept <;> exact trivial
  | .map es, wf => by
    rw [filterEdit]
    have children : ∀ k child, (k, child) ∈ es → child.WellFormed := by
      cases wf with
      | map _ _ children => exact children
    refine (filterEntries_sound keep o p es children).bind fun (kept, changed) holds => .pure ?_
    -- without a change the node itself stays, not the entries that were put together
    split
    · exact ofEntries_sound (wf.some_entries holds.1 holds.2)
    · exact trivial
  | .list xs, wf => by
    rw [filterEdit]
    obtain ⟨fits, children⟩ : xs.length ≤ Path.indexLimit ∧ ∀ x ∈ xs, x.WellFormed := by
      cases wf with
      | list fits children => exact ⟨fits, children⟩
    refine (filterElements_sound keep o p 0 xs children).bind fun (kept, changed) holds => .pure ?_
    split
    · exact ofElements_sound (.list (Nat.le_trans holds.1 fits) holds.2)
    · exact trivial

theorem filterEntries_sound (keep : Path → Scalar → m Bool) (o : Pruning) (p : Path) :
    ∀ es : List (String × Node), (∀ k child, (k, child) ∈ es → child.WellFormed) →
      Always (fun (kept, _) => List.Sublist (Entries.keys kept) (Entries.keys es) ∧
        ∀ k child, (k, child) ∈ kept → child.WellFormed) (filterEntries keep o p es)
  | [], _ => by
    rw [filterEntries]
    exact .pure ⟨List.Sublist.refl _, fun _ _ mem => (nomatch mem)⟩
  | (k, child) :: rest, children => by
    rw [filterEntries]
    have wf := children k child List.mem_cons_self
    refine (filterEdit_sound keep o (p.key k) child wf).bind fun edit here => ?_
    refine (filterEntries_sound keep o p rest fun k' child' mem =>
      children k' child' (List.mem_cons_of_mem _ mem)).bind fun (kept, changed) later => .pure ?_
    cases edit with
    | unchanged =>
      refine ⟨later.1.cons_cons k, fun k' child' mem => ?_⟩
      rcases List.mem_cons.mp mem with same | mem
      · cases same
        exact wf
      · exact later.2 k' child' mem
    | replaced node =>
      refine ⟨later.1.cons_cons k, fun k' child' mem => ?_⟩
      rcases List.mem_cons.mp mem with same | mem
      · cases same
        exact here.2
      · exact later.2 k' child' mem
    | removed => exact ⟨later.1.cons k, later.2⟩

theorem filterElements_sound (keep : Path → Scalar → m Bool) (o : Pruning) (p : Path) (i : Nat) :
    ∀ xs : List Node, (∀ x ∈ xs, x.WellFormed) →
      Always (fun (kept, _) => kept.length ≤ xs.length ∧ ∀ x ∈ kept, x.WellFormed)
        (filterElements keep o p i xs)
  | [], _ => by
    rw [filterElements]
    exact .pure ⟨Nat.le_refl 0, fun _ mem => (nomatch mem)⟩
  | child :: rest, children => by
    rw [filterElements]
    obtain ⟨wf, others⟩ := List.forall_mem_cons.mp children
    refine (filterEdit_sound keep o (p.index i) child wf).bind fun edit here => ?_
    refine (filterElements_sound keep o p (i + 1) rest others).bind
      fun (kept, changed) later => .pure ?_
    cases edit with
    | unchanged => exact ⟨Nat.succ_le_succ later.1, List.forall_mem_cons.mpr ⟨wf, later.2⟩⟩
    | replaced node => exact ⟨Nat.succ_le_succ later.1, List.forall_mem_cons.mpr ⟨here.2, later.2⟩⟩
    | removed => exact ⟨Nat.le_succ_of_le later.1, later.2⟩

end

/-- What is left of a well-formed map is a well-formed map. -/
theorem filterLeaves_sound (keep : Path → Scalar → m Bool) (p : Path) (o : Pruning)
    (wf : n.WellFormed) :
    Always (fun left => ∀ n', left = some n' → n'.isMap = n.isMap ∧ n'.WellFormed)
      (n.filterLeaves keep p o) := by
  rw [filterLeaves]
  exact (filterEdit_sound keep o p n wf).bind fun edit sound =>
    .pure fun n' left => sound.apply wf left

end Filter

end Node

end LayeredConfig
