import LayeredConfig.Proofs.Node.Walk
import LayeredConfig.Value

/-!
# Writing where nothing is

A write that only fills gaps goes down by a recursion of its own. It writes like any other where the walk
stops at a map that lacks the next name and no list element comes later (`Gap`, `fill?_of_gap`). Everywhere
else it leaves the tree as it is, and does not even build the value (`fill?_of_not_gap`).

So nothing that is there is touched (`Extends`), and a gap is filled once (`fillValue_agrees`).
-/

namespace LayeredConfig.Node

/-! ## Gaps -/

/-- The walk along the path stops at a map without the next name, and no list element comes later. -/
def Gap (n : Node) (path : Path) : Prop :=
  ∃ start es k rest, n.StopsAt path start (.map es) (.name k) rest ∧
    ∀ step ∈ rest, step.isIndex = false

section Gaps

variable {build : Path → Result Node} {n : Node} {place path : Path}

theorem Gap.get?_eq_none (gap : n.Gap path) : n.get? path = none := by
  obtain ⟨start, es, k, rest, stops, -⟩ := gap
  exact stops.get?_eq_none

/-- A gap is filled by the write that would replace. -/
theorem fill?_of_gap (gap : n.Gap path) :
    n.fill? build place path = some <$> n.put build place path := by
  obtain ⟨start, es, k, rest, stops, names⟩ := gap
  have missing := get?_entry_eq_none_iff.mp stops.missing
  have noIndex : rest.any Step.isIndex = false := by simpa using names
  -- at the map itself both make the same fresh tree
  have here : fill? build (place ++ start) (.map es) (.name k :: rest) =
      some <$> put build (place ++ start) (.map es) (.name k :: rest) := by
    rw [fill?, put, missing]
    simp [noIndex]
  rw [stops.path, fill?_append stops.leads, put_append stops.leads, here, ← comp_map, ← comp_map]
  rfl

/-- Nothing is done anywhere else. -/
theorem fill?_of_not_gap (full : ¬ n.Gap path) : n.fill? build place path = .ok none := by
  cases found : n.get? path with
  | some m =>
    have whole := fill?_append found build place []
    rw [List.append_nil] at whole
    rw [whole]
    cases m <;> rfl
  | none =>
    obtain ⟨start, m, step, rest, stops⟩ := exists_stopsAt found
    have here : fill? build (place ++ start) m (step :: rest) = .ok none := by
      match m, step with
      | .leaf s, .name k => rfl
      | .leaf s, .index i => rfl
      | .map es, .index i => rfl
      | .list xs, .name k => rfl
      | .list xs, .index i =>
        rw [fill?, get?_element_eq_none_iff.mp stops.missing]
      | .map es, .name k =>
        rw [fill?, get?_entry_eq_none_iff.mp stops.missing]
        -- only a list element later on keeps this from being a gap
        have index : rest.any Step.isIndex = true := by
          by_contra noIndex
          exact full ⟨start, es, k, rest, stops, by simpa using noIndex⟩
        exact if_pos index
    rw [stops.path, fill?_append stops.leads, here]
    rfl

end Gaps

/-! ## What is there stays -/

/-- A leaf stays as it is, a list keeps its length, and a map keeps its keys in front of new ones. -/
inductive Kept : Node → Node → Prop
  | leaf (s : Scalar) : Kept (.leaf s) (.leaf s)
  | list {xs ys : List Node} : ys.length = xs.length → Kept (.list xs) (.list ys)
  | map {es fs : List (String × Node)} : Entries.keys es <+: Entries.keys fs → Kept (.map es) (.map fs)

/-- Every node of the first tree is kept in the second one, at the path at which it was. -/
def Extends (n n' : Node) : Prop :=
  ∀ q m, n.get? q = some m → ∃ m', n'.get? q = some m' ∧ m.Kept m'

section Extends

variable {n m m' child child' : Node} {es : List (String × Node)} {k : String} {step : Step} {p : Path}

theorem Kept.refl (n : Node) : n.Kept n := by
  cases n with
  | leaf s => exact .leaf s
  | map es => exact .map (List.prefix_refl _)
  | list xs => exact .list rfl

theorem Extends.refl (n : Node) : n.Extends n :=
  fun _ m found => ⟨m, found, .refl m⟩

theorem keys_prefix_put (es : List (String × Node)) (k : String) (child : Node) :
    Entries.keys es <+: Entries.keys (Entries.put es k child) := by
  rw [Entries.keys_put]
  split
  · exact List.prefix_refl _
  · exact List.prefix_append _ _

theorem IsChild.kept (isChild : n.IsChild step child) (child' : Node) :
    n.Kept (n.setChild step child') := by
  cases isChild with
  | entry here => exact .map (keys_prefix_put _ _ child')
  | element here => exact .list List.length_set

/-- A tree is extended by extending one of its children. -/
theorem Extends.setChild (below : child.Extends child') (isChild : n.IsChild step child) :
    n.Extends (n.setChild step child') := by
  intro q m found
  cases q with
  | nil =>
    obtain rfl := Option.some.inj ((get?_nil n).symm.trans found)
    exact ⟨_, get?_nil _, isChild.kept child'⟩
  | cons other q =>
    by_cases same : other = step
    · subst same
      rw [isChild.get?_cons] at found
      rw [(isChild.set child').get?_cons]
      exact below q m found
    · rw [get?_setChild_other same]
      exact ⟨m, found, .refl m⟩

theorem Extends.setAt (below : m.Extends m') (found : n.get? p = some m) :
    n.Extends (n.setAt p m') := by
  induction p generalizing n with
  | nil =>
    obtain rfl := Option.some.inj ((get?_nil n).symm.trans found)
    rw [setAt_nil]
    exact below
  | cons step rest ih =>
    obtain ⟨child, isChild, later⟩ := get?_cons_eq_some_iff.mp found
    rw [isChild.setAt]
    exact (ih later).setChild isChild

/-- A map is extended by an entry that it lacks. -/
theorem extends_newEntry (missing : Entries.get? es k = none) (child : Node) :
    (Node.map es).Extends (.map (Entries.put es k child)) := by
  intro q m found
  cases q with
  | nil =>
    cases found
    exact ⟨_, rfl, .map (keys_prefix_put es k child)⟩
  | cons step rest =>
    have other : step ≠ .name k := by
      rintro rfl
      rw [get?_name, missing] at found
      cases found
    refine ⟨m, ?_, .refl m⟩
    rw [get?_cons, get?_entry_other es child other, ← get?_cons]
    exact found

/-- Filling a gap keeps everything. -/
theorem Gap.extends {build : Path → Result Node} {n' : Node} {place path : Path} (gap : n.Gap path)
    (written : n.put build place path = .ok n') : n.Extends n' := by
  obtain ⟨start, es, k, rest, stops, -⟩ := gap
  have missing := get?_entry_eq_none_iff.mp stops.missing
  rw [stops.path, put_append stops.leads, map_eq_ok] at written
  obtain ⟨m', inner, rfl⟩ := written
  rw [put, missing, bind_eq_ok] at inner
  obtain ⟨child, -, made⟩ := inner
  cases pure_eq_ok.mp made
  exact (extends_newEntry missing child).setAt stops.leads

end Extends

/-! ## Filling and replacing -/

/-- A write that only fills gaps is the write that replaces, with the same tree or the same error, where the
walk stops at a map that lacks the next name and no list element comes later. Anywhere else it leaves the
tree as it is, whatever the value. So it keeps every leaf where it is and the length of every list, and the
same write again does nothing. -/
theorem fillValue_agrees (n : Node) (place path : Path) (value : Value) :
    (n.Gap path → n.fillValue place path value = n.putValue place path value) ∧
      (¬ n.Gap path → n.fillValue place path value = .ok n) ∧
      ∀ n', n.fillValue place path value = .ok n' →
        n.Extends n' ∧ n'.fillValue place path value = .ok n' := by
  have inGap : ∀ {n : Node}, n.Gap path →
      n.fillValue place path value = n.putValue place path value := by
    intro n gap
    rw [fillValue, fill, fill?_of_gap gap, putValue]
    cases n.put (fun at_ => value.toNode at_) place path <;> rfl
  have outside : ∀ {n : Node}, ¬ n.Gap path → n.fillValue place path value = .ok n := by
    intro n full
    rw [fillValue, fill, fill?_of_not_gap full]
    rfl
  refine ⟨inGap, outside, fun n' filled => ?_⟩
  by_cases gap : n.Gap path
  · rw [inGap gap, putValue] at filled
    refine ⟨gap.extends filled, outside fun again => ?_⟩
    -- the new node is at the path now, so there is no gap any more
    obtain ⟨node, -, way⟩ := put_eq_ok_iff.mp filled
    exact absurd (way.get?_self.symm.trans again.get?_eq_none) (Option.some_ne_none node)
  · cases (outside gap).symm.trans filled
    exact ⟨.refl n, outside gap⟩

/-- An entry is made in a map inside of a list, but no element of the list, so the null is not looked at. -/
theorem fillValue_agrees_list :
    let one : Node := .leaf (.literal (.integer 1))
    let n : Node := .map [("l", .list [.map [("x", one)]])]
    let path : Path := [.name "l", .index 0, .name "y", .name "z"]
    n.Gap path ∧ n.fillValue .root path (.string "a") = n.putValue .root path (.string "a") ∧
      ¬ n.Gap [.name "l", .index 1] ∧ n.fillValue .root [.name "l", .index 1] .null = .ok n ∧
      ∃ n', n.fillValue .root path (.string "a") = .ok n' ∧
        n'.get? [.name "l", .index 0, .name "x"] = some one ∧
        n'.fillValue .root path (.string "a") = .ok n' := by
  intro one n path
  have gap : n.Gap path :=
    ⟨[.name "l", .index 0], [("x", one)], "y", [.name "z"], ⟨rfl, rfl, rfl⟩, by decide⟩
  have full : ¬ n.Gap [.name "l", .index 1] := by
    rintro ⟨start, es, k, rest, stops, -⟩
    -- the walk stops at the list
    have atList : n.StopsAt [.name "l", .index 1] [.name "l"] (.list [.map [("x", one)]]) (.index 1) [] :=
      ⟨rfl, rfl, rfl⟩
    obtain ⟨-, other, -⟩ := atList.unique stops
    cases other
  obtain ⟨agrees, -, keeps⟩ := fillValue_agrees n .root path (.string "a")
  obtain ⟨-, unchanged, -⟩ := fillValue_agrees n .root [.name "l", .index 1] .null
  have filled : n.fillValue .root path (.string "a") =
      .ok (.map [("l", .list [.map [("x", one), ("y", .map [("z",
        .leaf (.literal (.string "a")))])]])]) := rfl
  obtain ⟨extends_, again⟩ := keeps _ filled
  obtain ⟨m', there, kept⟩ : ∃ m', _ ∧ (Node.leaf (.literal (.integer 1))).Kept m' :=
    extends_ [.name "l", .index 0, .name "x"] one rfl
  cases kept
  exact ⟨gap, agrees gap, full, unchanged full, _, filled, there, again⟩

end LayeredConfig.Node
