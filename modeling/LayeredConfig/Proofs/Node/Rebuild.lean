import LayeredConfig.Proofs.Node.Leaves
import LayeredConfig.Proofs.Node.Visits

/-!
# Keeping what does not change

`mapLeaves` puts together anew only the containers in which a leaf changes. `rebuild` does so with every
container, and the two give the same tree with the same effects (`mapLeaves_eq_rebuild`), because a leaf that is
not replaced equals the one that it would be replaced by.

`relabel` is what is left of this for a function without effects. Replacing leaves by one such function
after the other is replacing them once (`relabel_relabel`).
-/

namespace LayeredConfig.Node

universe u

/-! ## The plain traversal -/

section Rebuild

variable {m : Type → Type u} [Monad m]

mutual

/-- The node at `p` with every leaf replaced and every container put together anew. -/
def rebuild (f : Path → Scalar → m Scalar) (p : Path) : Node → m Node
  | .leaf s => return .leaf (← f p s)
  | .map es => return .map (← rebuildEntries f p es)
  | .list xs => return .list (← rebuildElements f p 0 xs)

/-- The entries with every leaf replaced. -/
def rebuildEntries (f : Path → Scalar → m Scalar) (p : Path) :
    List (String × Node) → m (List (String × Node))
  | [] => return []
  | (k, child) :: rest => do
    let child' ← rebuild f (p.key k) child
    return (k, child') :: (← rebuildEntries f p rest)

/-- The elements from position `i` on with every leaf replaced. -/
def rebuildElements (f : Path → Scalar → m Scalar) (p : Path) (i : Nat) : List Node → m (List Node)
  | [] => return []
  | child :: rest => do
    let child' ← rebuild f (p.index i) child
    return child' :: (← rebuildElements f p (i + 1) rest)

end

variable [LawfulMonad m] (f : Path → Scalar → m Scalar)

mutual

theorem mapLeaves?_eq_rebuild (p : Path) : ∀ n : Node,
    (fun changed => changed.getD n) <$> mapLeaves? f p n = rebuild f p n
  | .leaf s => by
    rw [mapLeaves?, rebuild, map_bind]
    refine bind_congr fun t => ?_
    rw [map_pure]
    -- a leaf that is kept is the one that it would be replaced by
    split
    · next same => rw [same]; rfl
    · rfl
  | .map es => by
    rw [mapLeaves?, rebuild, ← mapEntries?_eq_rebuildEntries p es, map_bind, bind_map_left]
    refine bind_congr fun changed => ?_
    rw [map_pure]
    cases changed <;> rfl
  | .list xs => by
    rw [mapLeaves?, rebuild, ← mapElements?_eq_rebuildElements p 0 xs, map_bind, bind_map_left]
    refine bind_congr fun changed => ?_
    rw [map_pure]
    cases changed <;> rfl

theorem mapEntries?_eq_rebuildEntries (p : Path) : ∀ es : List (String × Node),
    (fun changed => changed.getD es) <$> mapEntries? f p es = rebuildEntries f p es
  | [] => by
    rw [mapEntries?, rebuildEntries, map_pure]
    rfl
  | (k, child) :: rest => by
    rw [mapEntries?, rebuildEntries, ← mapLeaves?_eq_rebuild (p.key k) child,
      ← mapEntries?_eq_rebuildEntries p rest, map_bind, bind_map_left]
    refine bind_congr fun child? => ?_
    rw [map_bind, bind_map_left]
    refine bind_congr fun rest? => ?_
    rw [map_pure]
    cases child? <;> cases rest? <;> rfl

theorem mapElements?_eq_rebuildElements (p : Path) (i : Nat) : ∀ xs : List Node,
    (fun changed => changed.getD xs) <$> mapElements? f p i xs = rebuildElements f p i xs
  | [] => by
    rw [mapElements?, rebuildElements, map_pure]
    rfl
  | child :: rest => by
    rw [mapElements?, rebuildElements, ← mapLeaves?_eq_rebuild (p.index i) child,
      ← mapElements?_eq_rebuildElements p (i + 1) rest, map_bind, bind_map_left]
    refine bind_congr fun child? => ?_
    rw [map_bind, bind_map_left]
    refine bind_congr fun rest? => ?_
    rw [map_pure]
    cases child? <;> cases rest? <;> rfl

end

mutual

/-- The leaves of the new tree are the results of one call for each leaf, in order, under the same paths. -/
theorem leaves_rebuild (p : Path) : ∀ n : Node, (fun n' => n'.leaves p) <$> rebuild f p n =
    (n.leaves p).mapM fun leaf => (leaf.1, ·) <$> f leaf.1 leaf.2
  | .leaf s => by
    simp [rebuild, leaves]
  | .map es => by
    rw [rebuild, leaves, ← leavesOfEntries_rebuildEntries p es]
    simp [leaves]
  | .list xs => by
    rw [rebuild, leaves, ← leavesOfElements_rebuildElements p 0 xs]
    simp [leaves]

theorem leavesOfEntries_rebuildEntries (p : Path) : ∀ es : List (String × Node),
    leavesOfEntries p <$> rebuildEntries f p es =
      (leavesOfEntries p es).mapM fun leaf => (leaf.1, ·) <$> f leaf.1 leaf.2
  | [] => by simp [rebuildEntries, leavesOfEntries]
  | (k, child) :: rest => by
    rw [rebuildEntries, leavesOfEntries, List.mapM_append, ← leaves_rebuild (p.key k) child,
      ← leavesOfEntries_rebuildEntries p rest]
    simp [leavesOfEntries]

theorem leavesOfElements_rebuildElements (p : Path) (i : Nat) : ∀ xs : List Node,
    leavesOfElements p i <$> rebuildElements f p i xs =
      (leavesOfElements p i xs).mapM fun leaf => (leaf.1, ·) <$> f leaf.1 leaf.2
  | [] => by simp [rebuildElements, leavesOfElements]
  | child :: rest => by
    rw [rebuildElements, leavesOfElements, List.mapM_append, ← leaves_rebuild (p.index i) child,
      ← leavesOfElements_rebuildElements p (i + 1) rest]
    simp [leavesOfElements]

end

end Rebuild

/-! ## Failing -/

/-- It succeeds exactly if it does for every leaf. -/
theorem mapLeaves_eq_ok_iff {ε : Type} {f : Path → Scalar → Except ε Scalar} {p : Path} {n n' : Node} :
    n.mapLeaves f p = .ok n' ↔ Mapped (fun q s t => f q s = .ok t) p n n' := by
  refine ⟨mapped_of_mapLeaves_ok, fun mapped => ?_⟩
  cases done : n.mapLeaves f p with
  | error e =>
    obtain ⟨q, s, mem, failed⟩ := exists_of_mapLeaves_error done
    obtain ⟨t, -, succeeds⟩ := mapped.symm.mem_leaves mem
    cases failed.symm.trans succeeds
  | ok other =>
    have same : other = n' := (mapped_of_mapLeaves_ok done).unique mapped fun leaf _ t u one two =>
      Except.ok.inj (one.symm.trans two)
    rw [same]

/-- If a leaf is refused, the leaves before it were visited, and no other one is. -/
theorem mapLeaves_stops {ε σ : Type} {f : Path → Scalar → ExceptT ε (StateM σ) Scalar} {p q : Path}
    {n : Node} {s : Scalar} {before after : List (Path × Scalar)} {first between last : σ} {e : ε}
    (listed : n.leaves p = before ++ (q, s) :: after)
    (passed : (visit f before).run.run first = (.ok ⟨⟩, between))
    (refused : (f q s).run.run between = (.error e, last)) :
    (n.mapLeaves f p).run.run first = (.error e, last) := by
  have stops : (visit f (n.leaves p)).run.run first = (.error e, last) := by
    have here : (visit f ((q, s) :: after)).run.run between = (.error e, last) := by
      rw [visit, List.forM_cons, ExceptT.run_bind, ExceptT.run_map, StateT.run_bind, StateT.run_map, refused]
      rfl
    rw [listed, visit_append, ExceptT.run_bind, StateT.run_bind, passed]
    exact here
  -- the visits are the traversal without its result, so the traversal fails where they do
  rw [← mapLeaves_visits, ExceptT.run_map, StateT.run_map] at stops
  generalize (n.mapLeaves f p).run.run first = result at stops ⊢
  obtain ⟨outcome, state⟩ := result
  cases outcome with
  | ok n' => cases stops
  | error e' =>
    cases stops
    rfl

/-! ## Functions without effects -/

/-- The tree at `p` with a function applied to every leaf. -/
def relabel (g : Path → Scalar → Scalar) (p : Path) (n : Node) : Node :=
  Id.run (n.mapLeaves (fun q s => pure (g q s)) p)

section Relabel

variable {g h : Path → Scalar → Scalar} {p : Path} {n : Node}

theorem relabel_mapped (g : Path → Scalar → Scalar) (p : Path) (n : Node) :
    Mapped (fun q s t => t = g q s) p n (n.relabel g p) := by
  have each (q : Path) (s : Scalar) : Always (fun t => t = g q s) (pure (g q s) : Id Scalar) := .pure rfl
  exact (mapLeaves_mapped each p n).of_run

/-- Without effects it does not matter which effects there could be. -/
theorem mapLeaves_pure {m : Type → Type u} [Monad m] [LawfulMonad m] (g : Path → Scalar → Scalar)
    (p : Path) (n : Node) :
    n.mapLeaves (fun q s => (pure (g q s) : m Scalar)) p = pure (n.relabel g p) := by
  have compatible : Compatible fun (α : Type) (x : m α) (y : Id α) => x = pure y.run := by
    refine ⟨fun _ => rfl, fun {_ _ x y _ _} first next => ?_⟩
    rw [first, pure_bind]
    exact next y.run
  exact mapLeaves_related compatible fun _ _ => rfl

theorem relabel_of_same (same : ∀ q s, (q, s) ∈ n.leaves p → g q s = s) : n.relabel g p = n := by
  have itself : Mapped (fun _ s t => t = s) p n n := Mapped.refl (R := fun _ s t => t = s) fun _ _ => rfl
  exact ((relabel_mapped g p n).eq_iff itself).mpr same

/-- Applying one function after the other is applying both at once. -/
theorem relabel_relabel (g h : Path → Scalar → Scalar) (p : Path) (n : Node) :
    (n.relabel g p).relabel h p = n.relabel (fun q s => h q (g q s)) p := by
  have twice : Mapped (fun q s u => u = h q (g q s)) p n ((n.relabel g p).relabel h p) := by
    refine (relabel_mapped g p n).trans (fun q s t u first second => ?_) (relabel_mapped h p _)
    rw [second, first]
  exact (twice.eq_iff (relabel_mapped _ p n)).mpr fun _ _ _ => rfl

end Relabel

/-! ## Replacing leaves -/

/-- Replacing leaves has the result and the effects of the plain traversal, whatever the effects are. The
leaves of the result come from one call for each leaf, in order and with its path, and a leaf that is
refused ends it. So the shape and the paths stay, a tree with which nothing is done is the tree that it was,
and two functions one after the other are one. -/
theorem mapLeaves_eq_rebuild {m : Type → Type u} [Monad m] [LawfulMonad m]
    (f : Path → Scalar → m Scalar) (p : Path) (n : Node) :
    n.mapLeaves f p = n.rebuild f p ∧
      (fun n' => n'.leaves p) <$> n.mapLeaves f p =
        (n.leaves p).mapM (fun leaf => (leaf.1, ·) <$> f leaf.1 leaf.2) ∧
      (∀ (ε σ : Type) (f : Path → Scalar → ExceptT ε (StateM σ) Scalar) before q s after
        (first between last : σ) (e : ε), n.leaves p = before ++ (q, s) :: after →
        (visit f before).run.run first = (.ok ⟨⟩, between) →
        (f q s).run.run between = (.error e, last) →
          (n.mapLeaves f p).run.run first = (.error e, last)) ∧
      Always (Mapped (fun _ _ _ => True) p n) (n.mapLeaves f p) ∧
      n.mapLeaves (fun _ s => (pure s : m Scalar)) p = pure n ∧
      ∀ g h : Path → Scalar → Scalar,
        (n.relabel g p).relabel h p = n.relabel (fun q s => h q (g q s)) p := by
  have plain : n.mapLeaves f p = n.rebuild f p := by
    rw [mapLeaves, ← mapLeaves?_eq_rebuild, bind_pure_comp]
  refine ⟨plain, ?leaves, ?stops, ?shape, ?same, fun g h => relabel_relabel g h p n⟩
  case leaves =>
    rw [plain, leaves_rebuild]
  case stops =>
    intro ε σ f before q s after first between last e listed passed refused
    exact mapLeaves_stops listed passed refused
  case shape =>
    exact mapLeaves_mapped (fun q s => .of_forall (fun _ => trivial) (f q s)) p n
  case same =>
    rw [mapLeaves_pure fun _ s => s, relabel_of_same fun _ _ _ => rfl]

/-- The second leaf is refused, after the call for the first one, and there is none for the third. -/
theorem mapLeaves_eq_rebuild_refused :
    let one : Node := .leaf (.literal (.integer 1))
    let n : Node := .map [("a", .list [one]), ("b", .leaf (.literal (.bool false))), ("c", one)]
    let f : Path → Scalar → ExceptT String (StateM (List Path)) Scalar := fun p s => do
      modify (p :: ·)
      if s = .literal (.integer 1) then return .literal (.integer 2) else throw "refused"
    n.mapLeaves f .root = n.rebuild f .root ∧
      n.leaves .root = [([.name "a", .index 0], .literal (.integer 1)),
        ([.name "b"], .literal (.bool false)), ([.name "c"], .literal (.integer 1))] ∧
      (n.mapLeaves f .root).run.run [] = (.error "refused", [[.name "b"], [.name "a", .index 0]]) := by
  intro one n f
  obtain ⟨plain, -, stops, -⟩ := mapLeaves_eq_rebuild f .root n
  have listed : n.leaves .root = [([.name "a", .index 0], .literal (.integer 1)),
      ([.name "b"], .literal (.bool false)), ([.name "c"], .literal (.integer 1))] := rfl
  exact ⟨plain, listed, stops _ _ f [_] _ _ _ [] [[.name "a", .index 0]] _ "refused" listed rfl rfl⟩

end LayeredConfig.Node
