import LayeredConfig.Node.Leaves
import LayeredConfig.Proofs.Computation

/-!
# The order in which leaves are replaced

Replacing leaves calls a function once for each leaf, in the order of `Node.leaves`.

* `mapLeaves_visits` says so for functions with any effects, and `failure?_mapLeaves` what it means for
  functions that may fail: the first leaf that fails decides.
* `mapLeaves_related` compares two functions, also with different effects. What relates their results on
  each leaf relates the results on the tree, if it is kept when computations are put together.
-/

namespace LayeredConfig.Node

universe u v

/-! ## One call for each leaf -/

section Visits

variable {m : Type → Type u} [Monad m] [LawfulMonad m] (f : Path → Scalar → m Scalar)

/-- The calls of `f` for the given leaves, in this order. -/
def visit (leaves : List (Path × Scalar)) : m PUnit :=
  forM leaves fun leaf => (fun _ => ⟨⟩) <$> f leaf.1 leaf.2

theorem visit_append (xs ys : List (Path × Scalar)) :
    visit f (xs ++ ys) = (do visit f xs; visit f ys) :=
  List.forM_append

mutual

theorem mapLeaves?_visits (p : Path) : ∀ n : Node,
    (fun _ => ⟨⟩) <$> mapLeaves? f p n = visit f (n.leaves p)
  | .leaf s => by simp [mapLeaves?, leaves, visit]
  | .map es => by
    rw [mapLeaves?, leaves, ← mapEntries?_visits p es]
    simp
  | .list xs => by
    rw [mapLeaves?, leaves, ← mapElements?_visits p 0 xs]
    simp

theorem mapEntries?_visits (p : Path) : ∀ es : List (String × Node),
    (fun _ => ⟨⟩) <$> mapEntries? f p es = visit f (leavesOfEntries p es)
  | [] => by simp [mapEntries?, leavesOfEntries, visit]
  | (k, child) :: rest => by
    rw [mapEntries?, leavesOfEntries, visit_append, ← mapLeaves?_visits (p.key k) child,
      ← mapEntries?_visits p rest]
    simp

theorem mapElements?_visits (p : Path) (i : Nat) : ∀ xs : List Node,
    (fun _ => ⟨⟩) <$> mapElements? f p i xs = visit f (leavesOfElements p i xs)
  | [] => by simp [mapElements?, leavesOfElements, visit]
  | child :: rest => by
    rw [mapElements?, leavesOfElements, visit_append, ← mapLeaves?_visits (p.index i) child,
      ← mapElements?_visits p (i + 1) rest]
    simp

end

/-- Replacing leaves has the effects of one call for each leaf, in depth-first order. -/
theorem mapLeaves_visits (p : Path) (n : Node) :
    (fun _ => ⟨⟩) <$> n.mapLeaves f p = visit f (n.leaves p) := by
  rw [mapLeaves, ← mapLeaves?_visits]
  simp

end Visits

/-- Replacing leaves fails like the first leaf that fails, in depth-first order. -/
theorem failure?_mapLeaves {ε : Type} (f : Path → Scalar → Except ε Scalar) (p : Path) (n : Node) :
    failure? (n.mapLeaves f p) = (n.leaves p).findSome? fun leaf => failure? (f leaf.1 leaf.2) := by
  calc
    failure? (n.mapLeaves f p)
      = failure? ((fun _ => PUnit.unit) <$> n.mapLeaves f p) := (failure?_map _ _).symm
    _ = failure? (visit f (n.leaves p)) := by rw [mapLeaves_visits]
    _ = (n.leaves p).findSome? fun leaf => failure? (f leaf.1 leaf.2) := by
      rw [visit, failure?_forM]
      simp only [failure?_map]

/-- If replacing leaves fails, it is because of a leaf. -/
theorem exists_of_mapLeaves_error {ε : Type} {f : Path → Scalar → Except ε Scalar} {p : Path}
    {n : Node} {e : ε} (failed : n.mapLeaves f p = .error e) :
    ∃ q s, (q, s) ∈ n.leaves p ∧ f q s = .error e := by
  rw [← failure?_eq_some_iff, failure?_mapLeaves] at failed
  obtain ⟨⟨q, s⟩, mem, failed⟩ := List.exists_of_findSome?_eq_some failed
  exact ⟨q, s, mem, failure?_eq_some_iff.mp failed⟩

/-- A leaf that fails makes replacing leaves fail, perhaps because of another one. -/
theorem mapLeaves_error_of_leaf {ε : Type} {f : Path → Scalar → Except ε Scalar} {p q : Path}
    {n : Node} {s : Scalar} {e : ε} (mem : (q, s) ∈ n.leaves p) (failed : f q s = .error e) :
    ∃ e', n.mapLeaves f p = .error e' := by
  have first : ((n.leaves p).findSome? fun leaf => failure? (f leaf.1 leaf.2)).isSome := by
    rw [List.findSome?_isSome_iff]
    exact ⟨_, mem, by rw [failed]; rfl⟩
  obtain ⟨e', first⟩ := Option.isSome_iff_exists.mp first
  rw [← failure?_mapLeaves, failure?_eq_some_iff] at first
  exact ⟨e', first⟩

/-! ## Two functions -/

section Related

variable {m : Type → Type u} [Monad m] {m' : Type → Type v} [Monad m']
  {Rel : ∀ α : Type, m α → m' α → Prop} {f : Path → Scalar → m Scalar}
  {g : Path → Scalar → m' Scalar}

/-- The relation holds of equal results, and is kept when computations are put together. -/
structure Compatible (Rel : ∀ α : Type, m α → m' α → Prop) : Prop where
  pure {α : Type} (a : α) : Rel _ (Pure.pure a) (Pure.pure a)
  bind {α β : Type} {x : m α} {y : m' α} {next : α → m β} {next' : α → m' β} :
    Rel _ x y → (∀ a, Rel _ (next a) (next' a)) → Rel _ (x >>= next) (y >>= next')

mutual

theorem mapLeaves?_related (compatible : Compatible Rel) (p : Path) : ∀ n : Node,
    (∀ leaf ∈ n.leaves p, Rel _ (f leaf.1 leaf.2) (g leaf.1 leaf.2)) →
      Rel _ (mapLeaves? f p n) (mapLeaves? g p n)
  | .leaf s, each => by
    rw [mapLeaves?, mapLeaves?]
    exact compatible.bind (each (p, s) (List.mem_singleton.mpr rfl)) fun t => compatible.pure _
  | .map es, each => by
    rw [mapLeaves?, mapLeaves?]
    exact compatible.bind (mapEntries?_related compatible p es each) fun _ => compatible.pure _
  | .list xs, each => by
    rw [mapLeaves?, mapLeaves?]
    exact compatible.bind (mapElements?_related compatible p 0 xs each) fun _ => compatible.pure _

theorem mapEntries?_related (compatible : Compatible Rel) (p : Path) : ∀ es : List (String × Node),
    (∀ leaf ∈ leavesOfEntries p es, Rel _ (f leaf.1 leaf.2) (g leaf.1 leaf.2)) →
      Rel _ (mapEntries? f p es) (mapEntries? g p es)
  | [], _ => by
    rw [mapEntries?, mapEntries?]
    exact compatible.pure _
  | (k, child) :: rest, each => by
    have here := mapLeaves?_related compatible (p.key k) child fun leaf mem =>
      each leaf (List.mem_append_left _ mem)
    have later := mapEntries?_related compatible p rest fun leaf mem =>
      each leaf (List.mem_append_right _ mem)
    rw [mapEntries?, mapEntries?]
    exact compatible.bind here fun _ => compatible.bind later fun _ => compatible.pure _

theorem mapElements?_related (compatible : Compatible Rel) (p : Path) (i : Nat) : ∀ xs : List Node,
    (∀ leaf ∈ leavesOfElements p i xs, Rel _ (f leaf.1 leaf.2) (g leaf.1 leaf.2)) →
      Rel _ (mapElements? f p i xs) (mapElements? g p i xs)
  | [], _ => by
    rw [mapElements?, mapElements?]
    exact compatible.pure _
  | child :: rest, each => by
    have here := mapLeaves?_related compatible (p.index i) child fun leaf mem =>
      each leaf (List.mem_append_left _ mem)
    have later := mapElements?_related compatible p (i + 1) rest fun leaf mem =>
      each leaf (List.mem_append_right _ mem)
    rw [mapElements?, mapElements?]
    exact compatible.bind here fun _ => compatible.bind later fun _ => compatible.pure _

end

/-- What relates the results on each leaf relates the results on the tree. -/
theorem mapLeaves_related (compatible : Compatible Rel) {p : Path} {n : Node}
    (each : ∀ leaf ∈ n.leaves p, Rel _ (f leaf.1 leaf.2) (g leaf.1 leaf.2)) :
    Rel _ (n.mapLeaves f p) (n.mapLeaves g p) := by
  rw [mapLeaves, mapLeaves]
  exact compatible.bind (mapLeaves?_related compatible p n each) fun _ => compatible.pure _

end Related

/-- Functions that agree on the leaves of a tree give the same result. -/
theorem mapLeaves_congr {m : Type → Type u} [Monad m] {f g : Path → Scalar → m Scalar} {p : Path}
    {n : Node} (same : ∀ leaf ∈ n.leaves p, f leaf.1 leaf.2 = g leaf.1 leaf.2) :
    n.mapLeaves f p = n.mapLeaves g p := by
  have compatible : Compatible fun α => @Eq (m α) := by
    refine ⟨fun _ => rfl, fun first next => ?_⟩
    rw [first, funext next]
  exact mapLeaves_related compatible same

end LayeredConfig.Node
