import LayeredConfig.Proofs.Node.Filter
import LayeredConfig.Proofs.Node.Walk

/-!
# Taking out what is at a path

`without` takes out one child and leaves its container, even if that is empty then. A removal is made of this
alone: it takes out the child, and if the container that it leaves is pruned it removes that one, in the tree
that is left (`removeEdit_append`).

Seen from the root, what goes is the longest run of containers above the end of the path that have no other
child (`Run`, `exists_longest_run`).
-/

namespace LayeredConfig

/-- The step to a child after another one is gone. Elements behind one that is gone move down by one. -/
def Step.after (step gone : Step) : Step :=
  match step, gone with
  | .index j, .index i => if i < j then .index (j - 1) else .index j
  | step, _ => step

/-- The edit that leaves `n`, unless it goes because it is empty. -/
def Edit.settle (o : Pruning) (n : Node) : Edit :=
  if o.prunes n then .removed else .replaced n

namespace Node

/-! ## Taking out a child -/

/-- The node without the child that the step leads to. -/
def dropChild (n : Node) (gone : Step) : Node :=
  match n, gone with
  | .map es, .name k => .map (Entries.erase es k)
  | .list xs, .index i => .list (xs.eraseIdx i)
  | n, _ => n

/-- The tree without one child of the node at `parent`. -/
def without (n : Node) (parent : Path) (gone : Step) : Node :=
  match n.get? parent with
  | some m => n.setAt parent (m.dropChild gone)
  | none => n

/-- How the paths of `n` read in `n'`, which is without one child of the node at `parent`. -/
structure ReadsAsBefore (n : Node) (parent : Path) (gone : Step) (n' : Node) : Prop where
  beside : ∀ q, ¬ q <+: parent → ¬ parent <+: q → n'.get? q = n.get? q
  siblings : ∀ step rest, step ≠ gone →
    n'.get? (parent ++ step.after gone :: rest) = n.get? (parent ++ step :: rest)
  above : ∀ q r m, parent = q ++ r → n.get? q = some m → n'.get? q = some (m.without r gone)

section Dropping

variable {n m child : Node} {step gone : Step} {parent rest : Path}

theorem get?_dropChild (differ : step ≠ gone) (n : Node) (rest : Path) :
    (n.dropChild gone).get? (step.after gone :: rest) = n.get? (step :: rest) := by
  match n, step, gone with
  | .leaf s, step, .name k => simp only [dropChild, get?_leaf_cons]
  | .leaf s, step, .index i => simp only [dropChild, get?_leaf_cons]
  | .map es, .index j, .name k => rfl
  | .map es, .index j, .index i =>
    simp only [dropChild, Step.after]
    split <;> rfl
  | .map es, .name k, .index i => rfl
  | .list xs, .name k, .index i => rfl
  | .list xs, .name k, .name k' => rfl
  | .list xs, .index j, .name k => rfl
  | .map es, .name k, .name k' =>
    have differ' : k' ≠ k := fun same => differ (by rw [same])
    simp only [dropChild, Step.after]
    rw [get?_name, get?_name, Entries.get?_erase_of_ne es differ']
  | .list xs, .index j, .index i =>
    have differ' : j ≠ i := fun same => differ (by rw [same])
    simp only [dropChild, Step.after]
    split
    · next behind =>
      rw [get?_index, get?_index, List.getElem?_eraseIdx_of_ge (by omega), Nat.sub_add_cancel (by omega)]
    · next before => rw [get?_index, get?_index, List.getElem?_eraseIdx_of_lt (by omega)]

theorem dropChild_setChild (n : Node) (step : Step) (new : Node) :
    (n.setChild step new).dropChild step = n.dropChild step := by
  match n, step with
  | .leaf s, step => rfl
  | .map es, .index i => rfl
  | .list xs, .name k => rfl
  | .map es, .name k => exact congrArg Node.map (Entries.erase_put es k new)
  | .list xs, .index i => exact congrArg Node.list List.eraseIdx_set_eq

theorem without_of_found (found : n.get? parent = some m) (gone : Step) :
    n.without parent gone = n.setAt parent (m.dropChild gone) := by
  rw [without, found]

theorem IsChild.without (isChild : n.IsChild step child) (rest : Path) (gone : Step) :
    n.without (step :: rest) gone = n.setChild step (child.without rest gone) := by
  rw [Node.without, Node.without, isChild.get?_cons]
  cases child.get? rest with
  | some m => exact isChild.setAt rest _
  | none => exact isChild.setChild_self.symm

theorem readsAsBefore_without (n : Node) (parent : Path) (gone : Step) :
    n.ReadsAsBefore parent gone (n.without parent gone) := by
  cases found : n.get? parent with
  | none =>
    have same : n.without parent gone = n := by rw [without, found]
    rw [same]
    refine ⟨fun _ _ _ => rfl, fun step rest _ => ?_, ?_⟩
    · rw [get?_append, get?_append, found]
      rfl
    · rintro q r m rfl here
      rw [get?_append, here, Option.bind_some] at found
      rw [here, without, found]
  | some m =>
    rw [without_of_found found]
    refine ⟨fun q above below => get?_setAt_other n _ above below, fun step rest differ => ?_, ?_⟩
    · rw [get?_setAt found, get?_dropChild differ, get?_append, found, Option.bind_some]
    · rintro q r m' rfl here
      have below : m'.get? r = some m := by rwa [get?_append, here] at found
      have set := get?_setAt here (m'.setAt r (m.dropChild gone)) []
      rwa [List.append_nil, get?_nil, ← setAt_append here, ← without_of_found below] at set

end Dropping

/-! ## One step of a removal -/

/-- What an edit of a child makes of the node. -/
def onChild (o : Pruning) (n : Node) (step : Step) : Edit → Edit
  | .unchanged => .unchanged
  | .replaced child => .replaced (n.setChild step child)
  | .removed => .settle o (n.dropChild step)

/-- Taking away what is at a path, also if this is the whole node. -/
def cut (o : Pruning) (n : Node) (path : Path) : Edit :=
  if path.isEmpty then .removed else n.removeEdit o path

section Removing

variable {o : Pruning} {n m child : Node} {step gone : Step} {parent path rest : Path}

theorem IsChild.not_prunes (isChild : n.IsChild step child) : o.prunes n = false := by
  cases isChild with
  | @entry es k child here =>
    cases es with
    | nil => cases here
    | cons entry rest => rfl
  | @element xs i child here =>
    cases xs with
    | nil => cases here
    | cons x rest => rfl

theorem IsChild.settle_setChild (isChild : n.IsChild step child) (new : Node) :
    Edit.settle o (n.setChild step new) = .replaced (n.setChild step new) :=
  if_neg (ne_true_of_eq_false (isChild.set new).not_prunes)

theorem IsChild.removeEdit (isChild : n.IsChild step child) (rest : Path) :
    n.removeEdit o (step :: rest) = onChild o n step (child.cut o rest) := by
  have settled := isChild.settle_setChild (o := o)
  cases isChild with
  | entry here =>
    rw [Node.removeEdit, here]
    show (match child.cut o rest with | .unchanged => _ | .replaced _ => _ | .removed => _) = _
    cases child.cut o rest with
    | unchanged => rfl
    | replaced new => exact settled new
    | removed => rfl
  | element here =>
    rw [Node.removeEdit, here]
    show (match child.cut o rest with | .unchanged => _ | .replaced _ => _ | .removed => _) = _
    cases child.cut o rest with
    | unchanged => rfl
    | replaced new => exact settled new
    | removed => rfl

theorem onChild_setChild (o : Pruning) (n : Node) (step : Step) (old : Node) (edit : Edit) :
    onChild o (n.setChild step old) step edit = onChild o n step edit := by
  cases edit with
  | unchanged => rfl
  | replaced new => exact congrArg Edit.replaced (setChild_setChild n step old new)
  | removed => exact congrArg (Edit.settle o) (dropChild_setChild n step old)

theorem onChild_eq_unchanged_iff {edit : Edit} :
    onChild o n step edit = .unchanged ↔ edit = .unchanged := by
  cases edit with
  | unchanged => exact ⟨fun _ => rfl, fun _ => rfl⟩
  | replaced new => exact ⟨nofun, nofun⟩
  | removed =>
    rw [onChild, Edit.settle]
    split <;> simp

theorem removeEdit_of_missing (missing : n.get? [step] = none) (rest : Path) :
    n.removeEdit o (step :: rest) = .unchanged := by
  match n, step with
  | .leaf s, .name k => rfl
  | .leaf s, .index i => rfl
  | .map es, .index i => rfl
  | .list xs, .name k => rfl
  | .map es, .name k => rw [removeEdit, get?_entry_eq_none_iff.mp missing]
  | .list xs, .index i => rw [removeEdit, get?_element_eq_none_iff.mp missing]

theorem cut_nil (o : Pruning) (n : Node) : n.cut o [] = .removed :=
  rfl

theorem cut_cons (o : Pruning) (n : Node) (step : Step) (rest : Path) :
    n.cut o (step :: rest) = n.removeEdit o (step :: rest) :=
  if_neg Bool.false_ne_true

/-- Nothing is done exactly if nothing is there. -/
theorem cut_eq_unchanged_iff : n.cut o path = .unchanged ↔ n.get? path = none := by
  induction path generalizing n with
  | nil =>
    rw [get?_nil, cut_nil]
    exact ⟨nofun, nofun⟩
  | cons step rest ih =>
    rw [cut_cons]
    cases found : n.get? [step] with
    | none => simp [removeEdit_of_missing found, get?_cons, found]
    | some child =>
      have isChild := get?_step_iff.mp found
      rw [isChild.removeEdit, onChild_eq_unchanged_iff, isChild.get?_cons, ih]

/-- A removal takes out the child. If this leaves a container that is pruned, the container is removed from
what is left. -/
theorem removeEdit_append (found : n.get? parent = some m) (isChild : m.IsChild gone child) :
    n.removeEdit o (parent ++ [gone]) =
      if o.prunes (m.dropChild gone) then (n.without parent gone).cut o parent
      else .replaced (n.without parent gone) := by
  induction parent generalizing n with
  | nil =>
    obtain rfl := Option.some.inj ((get?_nil n).symm.trans found)
    rw [without_of_found found, setAt_nil, List.nil_append, isChild.removeEdit]
    rfl
  | cons step rest ih =>
    obtain ⟨inner, isInner, later⟩ := get?_cons_eq_some_iff.mp found
    have below : inner.cut o (rest ++ [gone]) = inner.removeEdit o (rest ++ [gone]) :=
      if_neg (by simp)
    have isLeft := isInner.set (inner.without rest gone)
    rw [List.cons_append, isInner.removeEdit, below, ih later, isInner.without, cut_cons,
      isLeft.removeEdit, onChild_setChild]
    split <;> rfl

/-! ## The longest run -/

/-- A container that is pruned when its only child goes. -/
def Single (o : Pruning) : Node → Prop
  | .map es => es.length = 1 ∧ o.maps = true
  | .list xs => xs.length = 1 ∧ o.lists = true
  | .leaf _ => False

/-- From `top` to above the end of the path there are only containers that are pruned when their only child
goes. -/
def Run (o : Pruning) (n : Node) (top path : Path) : Prop :=
  top <+: path ∧ ∀ q, top <+: q → q <+: path → q ≠ path → ∃ m, n.get? q = some m ∧ m.Single o

theorem IsChild.prunes_dropChild (isChild : n.IsChild step child) :
    o.prunes (n.dropChild step) = true ↔ n.Single o := by
  cases isChild with
  | entry here =>
    have length := Entries.length_erase here
    simp only [dropChild, Pruning.prunes, Single, Bool.and_eq_true, List.isEmpty_iff_length_eq_zero,
      ← length, Nat.add_eq_right]
  | element here =>
    obtain ⟨within, -⟩ := List.getElem?_eq_some_iff.mp here
    have length := List.length_eraseIdx_add_one within
    simp only [dropChild, Pruning.prunes, Single, Bool.and_eq_true, List.isEmpty_iff_length_eq_zero,
      ← length, Nat.add_eq_right]

theorem Single.unique {other : Step} {child' : Node} (single : n.Single o) (isChild : n.IsChild step child)
    (isChild' : n.IsChild other child') : other = step := by
  have gone : (n.dropChild step).get? [other.after step] = none := by
    have emptied := isChild.prunes_dropChild.mpr single
    cases left : (n.dropChild step).get? [other.after step] with
    | none => rfl
    | some c =>
      rw [(get?_step_iff.mp left).not_prunes] at emptied
      cases emptied
  by_contra differ
  rw [get?_dropChild differ, get?_step_iff.mpr isChild'] at gone
  cases gone

theorem Run.refl (o : Pruning) (n : Node) (path : Path) : n.Run o path path := by
  refine ⟨List.prefix_refl path, fun q above below proper => ?_⟩
  exact absurd (below.eq_of_length_le above.length_le) proper

theorem IsChild.run_cons_iff {top : Path} (isChild : n.IsChild step child) :
    n.Run o (step :: top) (step :: rest) ↔ child.Run o top rest := by
  constructor
  · rintro ⟨above, singles⟩
    refine ⟨(List.cons_prefix_cons.mp above).2, fun q above below proper => ?_⟩
    rw [← isChild.get?_cons]
    exact singles (step :: q) (List.cons_prefix_cons.mpr ⟨rfl, above⟩)
      (List.cons_prefix_cons.mpr ⟨rfl, below⟩) fun same => proper (List.cons.inj same).2
  · rintro ⟨above, singles⟩
    refine ⟨List.cons_prefix_cons.mpr ⟨rfl, above⟩, fun q above below proper => ?_⟩
    cases q with
    | nil => cases List.prefix_nil.mp above
    | cons other q =>
      obtain ⟨rfl, below'⟩ := List.cons_prefix_cons.mp below
      rw [isChild.get?_cons]
      exact singles q (List.cons_prefix_cons.mp above).2 below' fun same => proper (by rw [same])

theorem IsChild.run_nil_iff (isChild : n.IsChild step child) :
    n.Run o [] (step :: rest) ↔ n.Single o ∧ child.Run o [] rest := by
  constructor
  · rintro ⟨-, singles⟩
    refine ⟨?_, List.nil_prefix, fun q _ below proper => ?_⟩
    · obtain ⟨m, found, single⟩ := singles [] List.nil_prefix List.nil_prefix nofun
      obtain rfl := Option.some.inj ((get?_nil n).symm.trans found)
      exact single
    · rw [← isChild.get?_cons]
      exact singles (step :: q) List.nil_prefix (List.cons_prefix_cons.mpr ⟨rfl, below⟩)
        fun same => proper (List.cons.inj same).2
  · rintro ⟨single, -, singles⟩
    refine ⟨List.nil_prefix, fun q _ below proper => ?_⟩
    cases q with
    | nil => exact ⟨n, get?_nil n, single⟩
    | cons other q =>
      obtain ⟨rfl, below'⟩ := List.cons_prefix_cons.mp below
      rw [isChild.get?_cons]
      exact singles q List.nil_prefix below' fun same => proper (by rw [same])

/-- The longest run does not get longer at a node that is not part of a run. -/
theorem IsChild.longest_cons {top : Path} (isChild : n.IsChild step child)
    (longest : ∀ other, child.Run o other rest → top <+: other) (ends : ¬ n.Run o [] (step :: rest)) :
    ∀ other, n.Run o other (step :: rest) → step :: top <+: other := by
  intro other run
  cases other with
  | nil => exact absurd run ends
  | cons first other =>
    obtain ⟨rfl, -⟩ := List.cons_prefix_cons.mp run.1
    exact List.cons_prefix_cons.mpr ⟨rfl, longest other (isChild.run_cons_iff.mp run)⟩

/-- What goes is the whole node, or else the child at the top of the longest run. -/
theorem exists_longest_run (found : n.get? path = some m) :
    ∃ top, n.Run o top path ∧ (∀ other, n.Run o other path → top <+: other) ∧
      (top = [] → n.cut o path = .removed) ∧
      ∀ parent gone, top = parent ++ [gone] → n.cut o path = .replaced (n.without parent gone) := by
  induction path generalizing n with
  | nil =>
    refine ⟨[], .refl o n [], fun _ _ => List.nil_prefix, fun _ => rfl, fun parent gone top => ?_⟩
    simp at top
  | cons step rest ih =>
    obtain ⟨child, isChild, later⟩ := get?_cons_eq_some_iff.mp found
    obtain ⟨below, run, longest, whole, part⟩ := ih later
    have edit : n.cut o (step :: rest) = onChild o n step (child.cut o rest) := by
      rw [cut_cons, isChild.removeEdit]
    by_cases all : n.Run o [] (step :: rest)
    · -- the child goes and leaves the node empty
      obtain ⟨single, run'⟩ := isChild.run_nil_iff.mp all
      refine ⟨[], all, fun _ _ => List.nil_prefix, fun _ => ?_, fun parent gone top => ?_⟩
      · rw [edit, whole (List.prefix_nil.mp (longest [] run'))]
        exact if_pos (isChild.prunes_dropChild.mpr single)
      · simp at top
    · refine ⟨step :: below, isChild.run_cons_iff.mpr run, isChild.longest_cons longest all, nofun, ?_⟩
      intro parent gone top
      cases parent with
      | nil =>
        -- the child goes, and others or the kind of the node keep it
        obtain ⟨rfl, rfl⟩ := List.cons.inj top
        have stays : ¬ n.Single o := fun single => all (isChild.run_nil_iff.mpr ⟨single, run⟩)
        rw [edit, whole rfl, without_of_found (get?_nil n), setAt_nil]
        exact if_neg fun prunes => stays (isChild.prunes_dropChild.mp prunes)
      | cons first parent =>
        obtain ⟨rfl, inner⟩ := List.cons.inj top
        rw [edit, part parent gone inner, isChild.without]
        rfl

/-- What is not on the path is not below a run on it, as no container of the run has another child. -/
theorem Run.beside {top q : Path} {m' : Node} (run : n.Run o top path) (found : n.get? path = some m)
    (found' : n.get? q = some m') (above : ¬ q <+: path) (below : ¬ path <+: q) : ¬ top <+: q := by
  induction path generalizing n top q with
  | nil => exact absurd List.nil_prefix below
  | cons step rest ih =>
    obtain ⟨child, isChild, later⟩ := get?_cons_eq_some_iff.mp found
    cases q with
    | nil => exact absurd List.nil_prefix above
    | cons other q =>
      obtain ⟨child', isChild', later'⟩ := get?_cons_eq_some_iff.mp found'
      intro under
      cases top with
      | nil =>
        obtain ⟨single, run'⟩ := isChild.run_nil_iff.mp run
        obtain rfl := single.unique isChild isChild'
        simp only [List.cons_prefix_cons, true_and] at above below
        rw [isChild.get?_cons] at found'
        exact ih run' later found' above below List.nil_prefix
      | cons first top =>
        obtain ⟨rfl, -⟩ := List.cons_prefix_cons.mp run.1
        obtain ⟨rfl, under'⟩ := List.cons_prefix_cons.mp under
        simp only [List.cons_prefix_cons, true_and] at above below
        rw [isChild.get?_cons] at found'
        exact ih (isChild.run_cons_iff.mp run) later found' above below under'

/-! ## Removals -/

theorem remove_of_ne_nil (notRoot : path ≠ []) : n.remove path o = (n.cut o path).apply n := by
  rw [remove, cut, if_neg (by simpa using notRoot)]

/-- Removing the root, or what is not there, leaves the tree. Any other removal takes out the child; if the
container that this leaves is pruned, it is removed from what is left, and if it is the root nothing is left.
So what goes is the longest run of containers above the end of the path that have no other child. Nothing
beside the path goes, and every path that does not lead into what goes reads as before. -/
theorem remove_prunes (n : Node) (path : Path) (o : Pruning) :
    (path = [] ∨ n.get? path = none → n.remove path o = some n) ∧
      (∀ parent gone, path = parent ++ [gone] → n.get? path ≠ none →
        ∃ m, (n.without parent gone).get? parent = some m ∧
          n.remove path o =
            if o.prunes m then
              if parent = [] then none else (n.without parent gone).remove parent o
            else some (n.without parent gone)) ∧
      (path ≠ [] → n.get? path ≠ none →
        ∃ top, n.Run o top path ∧ (∀ other, n.Run o other path → top <+: other) ∧
          (∀ q, n.get? q ≠ none → ¬ q <+: path → ¬ path <+: q → ¬ top <+: q) ∧
          (top = [] → n.remove path o = none) ∧
          ∀ parent gone, top = parent ++ [gone] → n.remove path o = some (n.without parent gone)) ∧
      ∀ parent gone, n.ReadsAsBefore parent gone (n.without parent gone) := by
  refine ⟨?nothing, ?once, ?run, readsAsBefore_without n⟩
  case nothing =>
    rintro (rfl | absent)
    · cases n <;> rfl
    · by_cases root : path = []
      · subst root
        cases n <;> rfl
      · rw [remove_of_ne_nil root, cut_eq_unchanged_iff.mpr absent]
        rfl
  case once =>
    rintro parent gone rfl present
    obtain ⟨child, found⟩ := Option.ne_none_iff_exists'.mp present
    rw [get?_append] at found
    obtain ⟨m, leads, here⟩ := Option.bind_eq_some_iff.mp found
    have left : (n.without parent gone).get? parent = some (m.dropChild gone) := by
      have set := get?_setAt leads (m.dropChild gone) []
      rwa [List.append_nil, get?_nil, ← without_of_found leads] at set
    refine ⟨m.dropChild gone, left, ?_⟩
    rw [remove, removeEdit_append leads (get?_step_iff.mp here)]
    split
    · split
      · next root =>
        subst root
        rfl
      · next inner =>
        rw [remove_of_ne_nil inner]
        -- something is done, so it does not matter which tree would stay otherwise
        cases edit : (n.without parent gone).cut o parent with
        | unchanged => cases left.symm.trans (cut_eq_unchanged_iff.mp edit)
        | replaced new => rfl
        | removed => rfl
    · rfl
  case run =>
    intro notRoot present
    obtain ⟨m, found⟩ := Option.ne_none_iff_exists'.mp present
    obtain ⟨top, run, longest, whole, part⟩ := exists_longest_run (o := o) found
    refine ⟨top, run, longest, fun q there above below => ?_, fun empty => ?_, fun parent gone top_ => ?_⟩
    · obtain ⟨m', found'⟩ := Option.ne_none_iff_exists'.mp there
      exact run.beside found found' above below
    · rw [remove_of_ne_nil notRoot, whole empty]
      rfl
    · rw [remove_of_ne_nil notRoot, part parent gone top_]
      rfl

/-- The map that is left empty goes, the list around it keeps its other element, and the map that was empty
before stays. -/
theorem remove_prunes_chain :
    let one : Node := .leaf (.literal (.integer 1))
    let two : Node := .leaf (.literal (.integer 2))
    let n : Node := .map [("a", .list [.map [("b", one)], two]), ("c", .map [])]
    let parent : Path := [.name "a", .index 0]
    n.remove [] .onlyMaps = some n ∧ n.remove [.name "b"] .onlyMaps = some n ∧
      n.remove (parent ++ [.name "b"]) .onlyMaps =
        (n.without parent (.name "b")).remove parent .onlyMaps ∧
      (∃ top, n.Run .onlyMaps top (parent ++ [.name "b"]) ∧ ¬ top <+: [.name "c"] ∧
        (top = [] → n.remove (parent ++ [.name "b"]) .onlyMaps = none)) ∧
      (n.without [.name "a"] (.index 0)).get? parent = some two := by
  intro one two n parent
  obtain ⟨root, -⟩ := remove_prunes n [] .onlyMaps
  obtain ⟨absent, -⟩ := remove_prunes n [.name "b"] .onlyMaps
  obtain ⟨-, once, run, reads⟩ := remove_prunes n (parent ++ [.name "b"]) .onlyMaps
  obtain ⟨m, left, step⟩ := once parent (.name "b") rfl nofun
  obtain ⟨top, isRun, -, beside, whole, -⟩ := run nofun nofun
  obtain rfl : m = .map [] := Option.some.inj (left.symm.trans rfl)
  refine ⟨root (.inl rfl), absent (.inr rfl), step, ⟨top, isRun, ?_, whole⟩, ?_⟩
  · exact beside [.name "c"] nofun (by decide) (by decide)
  · exact (reads [.name "a"] (.index 0)).siblings (.index 1) [] nofun

end Removing

end Node

end LayeredConfig
