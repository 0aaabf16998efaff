import LayeredConfig.Proofs.Node.Write

/-!
# Walking along a path

An edit at a path walks down to the node that it works on and puts a new node in its place. `setAt` is the
second half of this, and the laws of writes below say that the first half changes nothing: a write at
`p ++ q` is the write at `q` into the node at `p`, set at `p` (`put_append`, `fill?_append`).

A walk that does not get to its end stops at a node without the next child (`StopsAt`).
-/

namespace LayeredConfig.Node

/-! ## Children -/

/-- The child of a node to which one step leads. -/
inductive IsChild : Node → Step → Node → Prop
  | entry {es : List (String × Node)} {k : String} {child : Node} :
      Entries.get? es k = some child → IsChild (.map es) (.name k) child
  | element {xs : List Node} {i : Nat} {child : Node} :
      xs[i]? = some child → IsChild (.list xs) (.index i) child

/-- The node with another child in place of the one that the step leads to. -/
def setChild (n : Node) (step : Step) (child : Node) : Node :=
  match n, step with
  | .map es, .name k => .map (Entries.put es k child)
  | .list xs, .index i => .list (xs.set i child)
  | n, _ => n

/-- The tree with `new` in place of the node at `p`. If there is none, the tree stays as it is. -/
def setAt (n : Node) (p : Path) (new : Node) : Node :=
  match p with
  | [] => new
  | step :: rest =>
    match n.get? [step] with
    | some child => n.setChild step (child.setAt rest new)
    | none => n

section Children

variable {n child : Node} {es : List (String × Node)} {xs : List Node} {k : String} {i : Nat}
  {step other : Step}

theorem get?_step_iff : n.get? [step] = some child ↔ n.IsChild step child := by
  constructor
  · intro found
    match n, step with
    | .leaf s, step => simp at found
    | .map es, .index i => cases found
    | .list xs, .name k => cases found
    | .map es, .name k =>
      rw [get?_name] at found
      obtain ⟨c, here, same⟩ := Option.bind_eq_some_iff.mp found
      cases (get?_nil c).symm.trans same
      exact .entry here
    | .list xs, .index i =>
      rw [get?_index] at found
      obtain ⟨c, here, same⟩ := Option.bind_eq_some_iff.mp found
      cases (get?_nil c).symm.trans same
      exact .element here
  · intro isChild
    cases isChild with
    | entry here => simp [get?_name, here]
    | element here => simp [get?_index, here]

theorem get?_entry_eq_none_iff : (Node.map es).get? [.name k] = none ↔ Entries.get? es k = none := by
  rw [get?_name]
  cases Entries.get? es k <;> simp

theorem get?_element_eq_none_iff : (Node.list xs).get? [.index i] = none ↔ xs[i]? = none := by
  rw [get?_index]
  cases xs[i]? <;> simp

theorem IsChild.get?_cons (isChild : n.IsChild step child) (p : Path) :
    n.get? (step :: p) = child.get? p := by
  rw [Node.get?_cons, get?_step_iff.mpr isChild, Option.bind_some]

theorem IsChild.set (isChild : n.IsChild step child) (new : Node) :
    (n.setChild step new).IsChild step new := by
  cases isChild with
  | entry here => exact .entry (Entries.get?_put_self _ _ new)
  | element here =>
    obtain ⟨within, -⟩ := List.getElem?_eq_some_iff.mp here
    exact .element (List.getElem?_set_self within)

/-- The other children stay. -/
theorem get?_setChild_other (differ : other ≠ step) (new : Node) (p : Path) :
    (n.setChild step new).get? (other :: p) = n.get? (other :: p) := by
  match n, step, other with
  | .leaf s, step, other => rfl
  | .map es, .index i, other => rfl
  | .list xs, .name k, other => rfl
  | .map es, .name k, .index i => rfl
  | .list xs, .index i, .name k => rfl
  | .map es, .name k, .name k' =>
    have differ' : k ≠ k' := fun same => differ (by rw [same])
    unfold setChild
    rw [get?_name, get?_name, Entries.get?_put_of_ne es new differ']
  | .list xs, .index i, .index j =>
    have differ' : i ≠ j := fun same => differ (by rw [same])
    unfold setChild
    rw [get?_index, get?_index, List.getElem?_set_ne differ']

theorem setChild_setChild (n : Node) (step : Step) (old new : Node) :
    (n.setChild step old).setChild step new = n.setChild step new := by
  match n, step with
  | .leaf s, step => rfl
  | .map es, .index i => rfl
  | .list xs, .name k => rfl
  | .map es, .name k => exact congrArg Node.map (Entries.put_put es k old new)
  | .list xs, .index i => exact congrArg Node.list (List.set_set old)

/-- Setting the child that is there changes nothing. -/
theorem IsChild.setChild_self (isChild : n.IsChild step child) : n.setChild step child = n := by
  cases isChild with
  | entry here => exact congrArg Node.map (Entries.put_self here)
  | element here =>
    obtain ⟨within, rfl⟩ := List.getElem?_eq_some_iff.mp here
    exact congrArg Node.list (List.set_getElem_self within)

end Children

/-! ## Setting the node at a path -/

section SetAt

variable {n m child new old : Node} {step : Step} {p q rest : Path}

theorem setAt_nil (n new : Node) : n.setAt [] new = new := by
  rw [setAt]

theorem IsChild.setAt (isChild : n.IsChild step child) (rest : Path) (new : Node) :
    n.setAt (step :: rest) new = n.setChild step (child.setAt rest new) := by
  rw [Node.setAt, get?_step_iff.mpr isChild]

/-- A path that leads somewhere leads on from the child that its first step leads to. -/
theorem get?_cons_eq_some_iff :
    n.get? (step :: rest) = some m ↔ ∃ child, n.IsChild step child ∧ child.get? rest = some m := by
  rw [get?_cons, Option.bind_eq_some_iff]
  simp only [get?_step_iff]

/-- What was set is found. -/
theorem get?_setAt (found : n.get? p = some m) (new : Node) (q : Path) :
    (n.setAt p new).get? (p ++ q) = new.get? q := by
  induction p generalizing n with
  | nil => rw [setAt_nil, List.nil_append]
  | cons step rest ih =>
    obtain ⟨child, isChild, later⟩ := get?_cons_eq_some_iff.mp found
    rw [isChild.setAt, List.cons_append, (isChild.set _).get?_cons]
    exact ih later

/-- Beside the path nothing changes. -/
theorem get?_setAt_other (n new : Node) (above : ¬ q <+: p) (below : ¬ p <+: q) :
    (n.setAt p new).get? q = n.get? q := by
  induction p generalizing n q with
  | nil => exact absurd List.nil_prefix below
  | cons step rest ih =>
    cases q with
    | nil => exact absurd List.nil_prefix above
    | cons other q =>
      rw [setAt]
      cases found : n.get? [step] with
      | none => rfl
      | some child =>
        have isChild := get?_step_iff.mp found
        by_cases same : other = step
        · subst same
          simp only [List.cons_prefix_cons, true_and] at above below
          rw [(isChild.set _).get?_cons, isChild.get?_cons]
          exact ih child above below
        · exact get?_setChild_other same _ q

/-- Setting a node below another one. -/
theorem setAt_append (found : n.get? p = some m) (q : Path) (new : Node) :
    n.setAt (p ++ q) new = n.setAt p (m.setAt q new) := by
  induction p generalizing n with
  | nil =>
    cases (get?_nil n).symm.trans found
    rw [setAt_nil, List.nil_append]
  | cons step rest ih =>
    obtain ⟨child, isChild, later⟩ := get?_cons_eq_some_iff.mp found
    rw [List.cons_append, isChild.setAt, isChild.setAt, ih later]

/-- Setting the node that is there changes nothing. -/
theorem setAt_self (found : n.get? p = some m) : n.setAt p m = n := by
  induction p generalizing n with
  | nil =>
    obtain rfl := Option.some.inj ((get?_nil n).symm.trans found)
    exact setAt_nil n n
  | cons step rest ih =>
    obtain ⟨child, isChild, later⟩ := get?_cons_eq_some_iff.mp found
    rw [isChild.setAt, ih later, isChild.setChild_self]

end SetAt

/-! ## Writing below a node -/

section Writing

variable {n m child : Node} {p : Path} {step : Step}

theorem IsChild.put (isChild : n.IsChild step child) (build : Path → Result Node) (place rest : Path) :
    n.put build place (step :: rest) =
      n.setChild step <$> child.put build (place ++ [step]) rest := by
  cases isChild with
  | entry here =>
    rw [Node.put, here, bind_pure_comp]
    rfl
  | @element xs i child here =>
    obtain ⟨within, -⟩ := List.getElem?_eq_some_iff.mp here
    rw [Node.put, if_neg (Nat.lt_asymm within), here]
    exact bind_pure_comp (fun new => Node.list (xs.set i new)) _

theorem IsChild.fill? (isChild : n.IsChild step child) (build : Path → Result Node)
    (place rest : Path) :
    n.fill? build place (step :: rest) =
      Option.map (n.setChild step) <$> child.fill? build (place ++ [step]) rest := by
  cases isChild with
  | entry here =>
    rw [Node.fill?, here]
    exact bind_pure_comp _ _
  | element here =>
    rw [Node.fill?, here]
    exact bind_pure_comp _ _

/-- A write below a node that is there is a write into that node. -/
theorem put_append (found : n.get? p = some m) (build : Path → Result Node) (place q : Path) :
    n.put build place (p ++ q) = n.setAt p <$> m.put build (place ++ p) q := by
  induction p generalizing n place with
  | nil =>
    obtain rfl := Option.some.inj ((get?_nil n).symm.trans found)
    rw [List.nil_append, List.append_nil, show n.setAt [] = id from funext (setAt_nil n), id_map]
  | cons step rest ih =>
    obtain ⟨child, isChild, later⟩ := get?_cons_eq_some_iff.mp found
    have set : n.setAt (step :: rest) = fun new => n.setChild step (child.setAt rest new) :=
      funext (isChild.setAt rest)
    rw [List.cons_append, isChild.put, ih later, set, ← comp_map, List.append_assoc,
      List.singleton_append]
    rfl

theorem fill?_append (found : n.get? p = some m) (build : Path → Result Node) (place q : Path) :
    n.fill? build place (p ++ q) =
      Option.map (n.setAt p) <$> m.fill? build (place ++ p) q := by
  induction p generalizing n place with
  | nil =>
    obtain rfl := Option.some.inj ((get?_nil n).symm.trans found)
    rw [List.nil_append, List.append_nil, show n.setAt [] = id from funext (setAt_nil n),
      Option.map_id, id_map]
  | cons step rest ih =>
    obtain ⟨child, isChild, later⟩ := get?_cons_eq_some_iff.mp found
    have set : n.setAt (step :: rest) = n.setChild step ∘ child.setAt rest :=
      funext (isChild.setAt rest)
    rw [List.cons_append, isChild.fill?, ih later, set, ← Option.map_comp_map, comp_map,
      List.append_assoc, List.singleton_append]

end Writing

/-! ## Where a walk stops -/

/-- The walk along the path gets to `m`, by the steps `start`, and `m` has no child to which the next step
would lead. -/
structure StopsAt (n : Node) (path start : Path) (m : Node) (step : Step) (rest : Path) : Prop where
  path : path = start ++ step :: rest
  leads : n.get? start = some m
  missing : m.get? [step] = none

section Stops

variable {n m : Node} {path start rest : Path} {step : Step}

theorem StopsAt.get?_eq_none (stops : n.StopsAt path start m step rest) : n.get? path = none := by
  rw [stops.path, get?_append, stops.leads, Option.bind_some, get?_cons, stops.missing]
  rfl

/-- A walk that does not get to its end stops somewhere. -/
theorem exists_stopsAt (absent : n.get? path = none) :
    ∃ start m step rest, n.StopsAt path start m step rest := by
  induction path generalizing n with
  | nil => cases (get?_nil n).symm.trans absent
  | cons step rest ih =>
    cases found : n.get? [step] with
    | none => exact ⟨[], n, step, rest, rfl, get?_nil n, found⟩
    | some child =>
      have isChild := get?_step_iff.mp found
      rw [isChild.get?_cons] at absent
      obtain ⟨start, m, next, rest', stops⟩ := ih absent
      refine ⟨step :: start, m, next, rest', ?_, ?_, stops.missing⟩
      · rw [stops.path, List.cons_append]
      · rw [isChild.get?_cons]
        exact stops.leads

/-- A step leads on from where one walk along the path stops, so no other walk along it gets further. -/
theorem StopsAt.not_further {more : Path} {next : Step} {after : Path}
    (stops : n.StopsAt path start m step rest)
    (path' : path = (start ++ next :: more) ++ after) : n.get? (start ++ next :: more) = none := by
  rw [stops.path, List.append_assoc, List.append_cancel_left_eq] at path'
  cases path'
  rw [get?_append, stops.leads, Option.bind_some, get?_cons, stops.missing]
  rfl

/-- There is one place where it stops. -/
theorem StopsAt.unique {start' rest' : Path} {m' : Node} {step' : Step}
    (stops : n.StopsAt path start m step rest) (stops' : n.StopsAt path start' m' step' rest') :
    start' = start ∧ m' = m ∧ step' = step ∧ rest' = rest := by
  have same : start' = start := by
    rcases List.append_eq_append_iff.mp (stops.path.symm.trans stops'.path) with
      ⟨more, further, -⟩ | ⟨more, further, -⟩
    · cases more with
      | nil => rw [further, List.append_nil]
      | cons next more =>
        have none := stops.not_further (further ▸ stops'.path)
        rw [← further, stops'.leads] at none
        cases none
    · cases more with
      | nil => rw [further, List.append_nil]
      | cons next more =>
        have none := stops'.not_further (further ▸ stops.path)
        rw [← further, stops.leads] at none
        cases none
  subst same
  have whole := stops'.path.symm.trans stops.path
  rw [List.append_cancel_left_eq] at whole
  cases whole
  exact ⟨rfl, Option.some.inj (stops'.leads.symm.trans stops.leads), rfl, rfl⟩

end Stops

end LayeredConfig.Node
