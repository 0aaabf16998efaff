import LayeredConfig.Proofs.Computation
import LayeredConfig.Proofs.Node.WellFormed
import LayeredConfig.Node.Write

/-!
# What a write does

`Writes node n path n'` lists the ways in which writing `node` at `path` turns `n` into `n'`, one
constructor for each. A write succeeds exactly if the new node can be built and there is such a way
(`put_eq_ok_iff`); all laws of writes are proved from the relation.

1. `Writes.get?_self`, `Writes.get?_kept`, `Writes.get?_dropped`: what is written is read back, and every
  other path reads as before, unless it leads through a node that had to be dropped (`BlockedAt`).
2. `Writes.keys`, `Writes.elements`: what happens to the containers on the way.
3. `Writes.wellFormed`, `Writes.distinctKeys`: a write into a well-formed tree leaves a well-formed tree, and
  keys of maps stay distinct.
-/

namespace LayeredConfig.Node

/-! ## The ways of a write -/

/-- Does the node have children that are reached by steps of this kind? -/
def accepts : Node → Step → Bool
  | .map _, .name _ => true
  | .list _, .index _ => true
  | _, _ => false

/-- The tree consists of fresh containers along the path, with `node` at its end. -/
inductive Wraps (node : Node) : Path → Node → Prop
  | here : Wraps node [] node
  | name {k : String} {rest : Path} {inner : Node} :
      Wraps node rest inner → Wraps node (.name k :: rest) (.map [(k, inner)])
  | first {rest : Path} {inner : Node} :
      Wraps node rest inner → Wraps node (.index 0 :: rest) (.list [inner])

/-- Writing `node` at a path turns the first tree into the second.

* `entry`, `element`: the next child is there, and the write goes on below it.
* `newEntry`, `newElement`: it is not; a fresh tree comes to the end of the map or the list.
* `dropped`: the node has no children of this kind. A fresh tree takes its place. -/
inductive Writes (node : Node) : Node → Path → Node → Prop
  | here {n : Node} : Writes node n [] node
  | entry {es : List (String × Node)} {k : String} {rest : Path} {child child' : Node} :
      Entries.get? es k = some child → Writes node child rest child' →
      Writes node (.map es) (.name k :: rest) (.map (Entries.put es k child'))
  | newEntry {es : List (String × Node)} {k : String} {rest : Path} {child' : Node} :
      Entries.get? es k = none → Wraps node rest child' →
      Writes node (.map es) (.name k :: rest) (.map (Entries.put es k child'))
  | element {xs : List Node} {i : Nat} {rest : Path} {child child' : Node} :
      xs[i]? = some child → Writes node child rest child' →
      Writes node (.list xs) (.index i :: rest) (.list (xs.set i child'))
  | newElement {xs : List Node} {rest : Path} {child' : Node} :
      Wraps node rest child' →
      Writes node (.list xs) (.index xs.length :: rest) (.list (xs ++ [child']))
  | dropped {n n' : Node} {step : Step} {rest : Path} :
      n.accepts step = false → Wraps node (step :: rest) n' → Writes node n (step :: rest) n'

section Ways

variable {build : Path → Result Node} {node n n' : Node} {full place path : Path}

theorem wrap_eq_ok_iff : wrap full node path = .ok n' ↔ Wraps node path n' := by
  induction path generalizing n' with
  | nil =>
    rw [wrap]
    constructor
    · rintro ⟨⟩
      exact .here
    · rintro ⟨⟩
      rfl
  | cons step rest ih =>
    match step with
    | .name k =>
      rw [wrap, bind_eq_ok]
      constructor
      · rintro ⟨inner, below, same⟩
        cases pure_eq_ok.mp same
        exact .name (ih.mp below)
      · rintro (_ | below)
        exact ⟨_, ih.mpr below, rfl⟩
    | .index i =>
      rw [wrap, bind_eq_ok]
      constructor
      · rintro ⟨inner, below, same⟩
        split at same
        · next first =>
          cases first
          cases pure_eq_ok.mp same
          exact .first (ih.mp below)
        · cases same
      · rintro (_ | _ | below)
        exact ⟨_, ih.mpr below, rfl⟩

theorem fresh_eq_ok_iff :
    fresh build place path = .ok n' ↔ ∃ node, build (place ++ path) = .ok node ∧ Wraps node path n' := by
  rw [fresh, bind_eq_ok]
  simp only [wrap_eq_ok_iff]

theorem writes_nil_iff : Writes node n [] n' ↔ n' = node := by
  constructor
  · rintro ⟨⟩
    rfl
  · rintro rfl
    exact .here

theorem writes_name_iff {es : List (String × Node)} {k : String} {rest : Path} :
    Writes node (.map es) (.name k :: rest) n' ↔ ∃ child',
      ((∃ child, Entries.get? es k = some child ∧ Writes node child rest child') ∨
        Entries.get? es k = none ∧ Wraps node rest child') ∧
      .map (Entries.put es k child') = n' := by
  constructor
  · intro way
    cases way with
    | entry found way => exact ⟨_, .inl ⟨_, found, way⟩, rfl⟩
    | newEntry missing wraps => exact ⟨_, .inr ⟨missing, wraps⟩, rfl⟩
    | dropped refused _ => cases refused
  · rintro ⟨child', ⟨child, found, way⟩ | ⟨missing, wraps⟩, rfl⟩
    · exact .entry found way
    · exact .newEntry missing wraps

theorem writes_index_iff {xs : List Node} {i : Nat} {rest : Path} :
    Writes node (.list xs) (.index i :: rest) n' ↔ ∃ child',
      (∃ child, xs[i]? = some child ∧ Writes node child rest child' ∧
        .list (xs.set i child') = n') ∨
      i = xs.length ∧ Wraps node rest child' ∧ .list (xs ++ [child']) = n' := by
  constructor
  · intro way
    cases way with
    | element found way => exact ⟨_, .inl ⟨_, found, way, rfl⟩⟩
    | newElement wraps => exact ⟨_, .inr ⟨rfl, wraps, rfl⟩⟩
    | dropped refused _ => cases refused
  · rintro ⟨child', ⟨child, found, way, rfl⟩ | ⟨rfl, wraps, rfl⟩⟩
    · exact .element found way
    · exact .newElement wraps

theorem writes_refused_iff {step : Step} {rest : Path} (refused : n.accepts step = false) :
    Writes node n (step :: rest) n' ↔ Wraps node (step :: rest) n' := by
  constructor
  · intro way
    cases way with
    | dropped _ wraps => exact wraps
    | _ => cases refused
  · exact .dropped refused

theorem put_nil (build : Path → Result Node) (place : Path) (n : Node) :
    put build place n [] = build place := by
  cases n <;> rfl

theorem put_refused {step : Step} {rest : Path} (refused : n.accepts step = false) :
    put build place n (step :: rest) = fresh build place (step :: rest) := by
  match n, step with
  | .leaf s, .name k => rfl
  | .leaf s, .index i => rfl
  | .map es, .index i => rfl
  | .list xs, .name k => rfl

/-- A write succeeds exactly if the new node is built and there is a way to write it. -/
theorem put_eq_ok_iff :
    put build place n path = .ok n' ↔
      ∃ node, build (place ++ path) = .ok node ∧ Writes node n path n' := by
  -- along the path, with the place of the node that is reached
  induction path generalizing n n' place with
  | nil => simp [put_nil, writes_nil_iff]
  | cons step rest ih =>
    match kind : n.accepts step with
    | false => simp only [put_refused kind, fresh_eq_ok_iff, writes_refused_iff kind]
    | true =>
      match n, step with
      | .map es, .name k =>
        have path : place.key k ++ rest = place ++ .name k :: rest := by simp [Path.key]
        rw [put]
        simp only [writes_name_iff]
        cases found : Entries.get? es k with
        | some child => simp only [bind_eq_ok, pure_eq_ok, ih, path]; grind
        | none => simp only [bind_eq_ok, pure_eq_ok, fresh_eq_ok_iff, path]; grind
      | .list xs, .index i =>
        have path : place.index i ++ rest = place ++ .index i :: rest := by simp [Path.index]
        rw [put]
        simp only [writes_index_iff]
        split
        · next beyond => grind
        · next within =>
          cases found : xs[i]? with
          | some child => simp only [bind_eq_ok, pure_eq_ok, ih, path]; grind
          | none => simp only [bind_eq_ok, pure_eq_ok, fresh_eq_ok_iff, path]; grind

end Ways

/-! ## One step of a write -/

section Steps

variable {node n n' : Node} {rest : Path}

/-- A step to children of the other kind leads nowhere. -/
theorem get?_of_refused {step : Step} (refused : n.accepts step = false) (p : Path) :
    n.get? (step :: p) = none := by
  match n, step with
  | .leaf s, step => exact get?_leaf_cons s step p
  | .map es, .name k => cases refused
  | .map es, .index i => rfl
  | .list xs, .index i => cases refused
  | .list xs, .name k => rfl

theorem get?_entry_self (es : List (String × Node)) (k : String) (child : Node) :
    (Node.map (Entries.put es k child)).get? [.name k] = some child := by
  rw [get?_name, Entries.get?_put_self]
  exact get?_nil child

theorem get?_entry_other (es : List (String × Node)) {k : String} (child : Node) {other : Step}
    (differ : other ≠ .name k) :
    (Node.map (Entries.put es k child)).get? [other] = (Node.map es).get? [other] := by
  cases other with
  | index i => rfl
  | name k' =>
    have differ' : k ≠ k' := fun same => differ (by rw [same])
    rw [get?_name, get?_name, Entries.get?_put_of_ne es child differ']

/-- Fresh containers have one child each, which the path leads to. -/
theorem Wraps.step {step : Step} (wraps : Wraps node (step :: rest) n') :
    ∃ child, n'.get? [step] = some child ∧ Wraps node rest child ∧
      ∀ other ≠ step, n'.get? [other] = none := by
  cases wraps with
  | @name k _ inner below =>
    refine ⟨inner, get?_entry_self [] k inner, below, fun other differ => ?_⟩
    exact (get?_entry_other [] inner differ).trans (by cases other <;> rfl)
  | @first _ inner below =>
    refine ⟨inner, by simp [get?_index], below, fun other differ => ?_⟩
    match other with
    | .name k => rfl
    | .index 0 => exact absurd rfl differ
    | .index (i + 1) => rfl

/-- A write either drops the node that it meets, or changes the one child that the path leads to. -/
theorem Writes.step {step : Step} (way : Writes node n (step :: rest) n') :
    n.accepts step = false ∧ Wraps node (step :: rest) n' ∨
    n.accepts step = true ∧ (∀ other ≠ step, n'.get? [other] = n.get? [other]) ∧
      ∃ child', n'.get? [step] = some child' ∧
        ((∃ child, n.get? [step] = some child ∧ Writes node child rest child') ∨
          n.get? [step] = none ∧ Wraps node rest child') := by
  cases way with
  | dropped refused wraps => exact .inl ⟨refused, wraps⟩
  | @entry es k _ child child' found below =>
    refine .inr ⟨rfl, fun other => get?_entry_other es child', child', get?_entry_self es k child',
      .inl ⟨child, ?_, below⟩⟩
    rw [get?_name, found]
    exact get?_nil child
  | @newEntry es k _ child' missing wraps =>
    refine .inr ⟨rfl, fun other => get?_entry_other es child', child', get?_entry_self es k child',
      .inr ⟨?_, wraps⟩⟩
    rw [get?_name, missing]
    rfl
  | @element xs i _ child child' found below =>
    obtain ⟨within, -⟩ := List.getElem?_eq_some_iff.mp found
    refine .inr ⟨rfl, fun other differ => ?_, child', ?_, .inl ⟨child, ?_, below⟩⟩
    · cases other with
      | name k => rfl
      | index j =>
        have differ' : i ≠ j := fun same => differ (by rw [same])
        rw [get?_index, get?_index, List.getElem?_set_ne differ']
    · rw [get?_index, List.getElem?_set_self within]
      exact get?_nil child'
    · rw [get?_index, found]
      exact get?_nil child
  | @newElement xs _ child' wraps =>
    refine .inr ⟨rfl, fun other differ => ?_, child', ?_, .inr ⟨?_, wraps⟩⟩
    · cases other with
      | name k => rfl
      | index j =>
        have differ' : j ≠ xs.length := fun same => differ (by rw [same])
        have same : (xs ++ [child'])[j]? = xs[j]? := by grind
        rw [get?_index, get?_index, same]
    · simp [get?_index]
    · simp [get?_index]

end Steps

/-! ## What is found after a write -/

section Frame

variable {node n n' m : Node} {path start q : Path}

/-- The node at `start` lies on the way to `path` and has no children of the kind that the way needs.
No way goes on from such a node, so there is at most one (`BlockedAt.unique`). -/
def BlockedAt (n : Node) (path start : Path) : Prop :=
  ∃ step rest m, path = start ++ step :: rest ∧ n.get? start = some m ∧ m.accepts step = false

theorem not_blockedAt_root : ¬ n.BlockedAt [] start := by
  rintro ⟨step, rest, m, path, -⟩
  simp at path

theorem blockedAt_cons_iff {step : Step} {rest : Path} :
    n.BlockedAt (step :: rest) start ↔
      start = [] ∧ n.accepts step = false ∨
      ∃ start' child, start = step :: start' ∧ n.get? [step] = some child ∧
        child.BlockedAt rest start' := by
  constructor
  · rintro ⟨next, rest', m, path, leads, refused⟩
    cases start with
    | nil =>
      cases path
      cases (get?_nil n).symm.trans leads
      exact .inl ⟨rfl, refused⟩
    | cons first start' =>
      cases path
      rw [get?_cons] at leads
      obtain ⟨child, here, later⟩ := Option.bind_eq_some_iff.mp leads
      exact .inr ⟨start', child, rfl, here, next, rest', m, rfl, later, refused⟩
  · rintro (⟨rfl, refused⟩ | ⟨start', child, rfl, here, next, rest', m, rfl, leads, refused⟩)
    · exact ⟨step, rest, n, rfl, get?_nil n, refused⟩
    · refine ⟨next, rest', m, rfl, ?_, refused⟩
      rw [get?_cons, here]
      exact leads

/-- At most one node on the way blocks it. -/
theorem BlockedAt.unique {other : Path} (blocked : n.BlockedAt path start)
    (blocked' : n.BlockedAt path other) : start = other := by
  induction path generalizing n start other with
  | nil => exact absurd blocked not_blockedAt_root
  | cons step rest ih =>
    rcases blockedAt_cons_iff.mp blocked with ⟨rfl, refused⟩ | ⟨start', child, rfl, here, below⟩ <;>
      rcases blockedAt_cons_iff.mp blocked' with ⟨rfl, refused'⟩ | ⟨other', child', rfl, here', below'⟩
    · rfl
    · simp [get?_of_refused refused] at here'
    · simp [get?_of_refused refused'] at here
    · cases here.symm.trans here'
      rw [ih below below']

theorem Wraps.get?_self (wraps : Wraps node path n') : n'.get? path = some node := by
  induction path generalizing n' with
  | nil =>
    cases wraps
    exact get?_nil _
  | cons step rest ih =>
    obtain ⟨child, here, below, -⟩ := wraps.step
    rw [get?_cons, here]
    exact ih below

/-- Fresh containers hold nothing beside the new node. -/
theorem Wraps.get?_other (wraps : Wraps node path n') (above : ¬ q <+: path) (below : ¬ path <+: q) :
    n'.get? q = none := by
  induction path generalizing n' q with
  | nil => exact absurd List.nil_prefix below
  | cons step rest ih =>
    obtain ⟨child, here, inner, others⟩ := wraps.step
    cases q with
    | nil => exact absurd List.nil_prefix above
    | cons other q =>
      rw [get?_cons]
      by_cases same : other = step
      · subst same
        rw [here]
        simp only [List.cons_prefix_cons, true_and] at above below
        exact ih inner above below
      · rw [others other same]
        rfl

/-- The new node is found where it was written. -/
theorem Writes.get?_self (way : Writes node n path n') : n'.get? path = some node := by
  induction path generalizing n n' with
  | nil =>
    cases writes_nil_iff.mp way
    exact get?_nil _
  | cons step rest ih =>
    rcases way.step with ⟨-, wraps⟩ | ⟨-, -, child', here, ⟨child, -, below⟩ | ⟨-, wraps⟩⟩
    · exact wraps.get?_self
    · rw [get?_cons, here]
      exact ih below
    · rw [get?_cons, here]
      exact wraps.get?_self

/-- Nothing is found any more beside the path through a node that had to be dropped. -/
theorem Writes.get?_dropped (way : Writes node n path n') (blocked : n.BlockedAt path start)
    (through : start <+: q) (above : ¬ q <+: path) (below : ¬ path <+: q) : n'.get? q = none := by
  induction path generalizing n n' start q with
  | nil => exact absurd blocked not_blockedAt_root
  | cons step rest ih =>
    rcases blockedAt_cons_iff.mp blocked with ⟨rfl, refused⟩ | ⟨start', child, rfl, here, blocked'⟩
    · exact ((writes_refused_iff refused).mp way).get?_other above below
    · obtain ⟨q', rfl⟩ := through
      rw [List.cons_append, List.cons_prefix_cons] at above below
      rcases way.step with ⟨refused, -⟩ | ⟨-, -, child', here', ⟨_, found, inner⟩ | ⟨missing, -⟩⟩
      · simp [get?_of_refused refused] at here
      · cases here.symm.trans found
        rw [List.cons_append, get?_cons, here']
        exact ih inner blocked' (List.prefix_append _ _) (by simpa using above) (by simpa using below)
      · cases here.symm.trans missing

/-- Everything else is found as before. -/
theorem Writes.get?_kept (way : Writes node n path n')
    (kept : ∀ start, n.BlockedAt path start → ¬ start <+: q) (above : ¬ q <+: path)
    (below : ¬ path <+: q) : n'.get? q = n.get? q := by
  induction path generalizing n n' q with
  | nil => exact absurd List.nil_prefix below
  | cons step rest ih =>
    rcases way.step with ⟨refused, -⟩ | ⟨-, others, child', here', inner⟩
    · -- a node that is dropped here would be on the way to every path
      exact absurd List.nil_prefix (kept [] (blockedAt_cons_iff.mpr (.inl ⟨rfl, refused⟩)))
    · cases q with
      | nil => exact absurd List.nil_prefix above
      | cons other q =>
        rw [get?_cons n', get?_cons n]
        by_cases same : other = step
        · subst same
          simp only [List.cons_prefix_cons, true_and] at above below
          rw [here']
          rcases inner with ⟨child, here, inner⟩ | ⟨missing, wraps⟩
          · rw [here]
            refine ih inner (fun start blocked through => ?_) above below
            refine kept (other :: start) (blockedAt_cons_iff.mpr (.inr ?_)) ?_
            · exact ⟨start, child, rfl, here, blocked⟩
            · exact List.cons_prefix_cons.mpr ⟨rfl, through⟩
          · -- nothing was there, and the fresh containers hold nothing beside the path
            rw [missing]
            exact wraps.get?_other above below
        · rw [others other same]

/-! ### The containers on the way -/

/-- A write below `start` writes the rest of the path into the node there. -/
theorem Writes.further {step : Step} {rest : Path} (way : Writes node n (start ++ step :: rest) n')
    (leads : n.get? start = some m) :
    ∃ m', n'.get? start = some m' ∧ Writes node m (step :: rest) m' := by
  induction start generalizing n n' with
  | nil =>
    cases (get?_nil n).symm.trans leads
    exact ⟨n', get?_nil n', way⟩
  | cons first start ih =>
    rw [get?_cons] at leads
    obtain ⟨child, here, later⟩ := Option.bind_eq_some_iff.mp leads
    rcases way.step with ⟨refused, -⟩ | ⟨-, -, child', here', ⟨_, found, inner⟩ | ⟨missing, -⟩⟩
    · simp [get?_of_refused refused] at here
    · cases here.symm.trans found
      rw [get?_cons, here']
      exact ih inner later
    · cases here.symm.trans missing

/-- A map on the way keeps its keys in order, and a new key comes last. -/
theorem Writes.keys {es : List (String × Node)} {k : String} {rest : Path}
    (way : Writes node n (start ++ .name k :: rest) n') (leads : n.get? start = some (.map es)) :
    ∃ fs, n'.get? start = some (.map fs) ∧
      Entries.keys fs = if k ∈ Entries.keys es then Entries.keys es else Entries.keys es ++ [k] := by
  obtain ⟨m', leads', inner⟩ := way.further leads
  obtain ⟨child', -, rfl⟩ := writes_name_iff.mp inner
  exact ⟨_, leads', Entries.keys_put es k child'⟩

/-- A list on the way keeps its other elements, and gets at most one more at its end. -/
theorem Writes.elements {xs : List Node} {i : Nat} {rest : Path}
    (way : Writes node n (start ++ .index i :: rest) n') (leads : n.get? start = some (.list xs)) :
    i ≤ xs.length ∧ ∃ ys, n'.get? start = some (.list ys) ∧ ys.length = max xs.length (i + 1) ∧
      ∀ j ≠ i, ys[j]? = xs[j]? := by
  obtain ⟨m', leads', inner⟩ := way.further leads
  obtain ⟨child', ⟨child, found, -, rfl⟩ | ⟨rfl, -, rfl⟩⟩ := writes_index_iff.mp inner
  · obtain ⟨within, -⟩ := List.getElem?_eq_some_iff.mp found
    refine ⟨Nat.le_of_lt within, _, leads', ?_, fun j differ => ?_⟩
    · rw [List.length_set, Nat.max_eq_left within]
    · rw [List.getElem?_set_ne differ.symm]
  · refine ⟨Nat.le_refl _, _, leads', ?_, fun j differ => ?_⟩
    · simp
    · grind

end Frame

/-! ## Well-formed trees -/

section WellFormed

variable {build : Path → Result Node} {node n n' : Node} {place path : Path}

/-- The root stays a map if something is written under a name. -/
theorem Writes.isMap {k : String} {rest : Path} (way : Writes node n (.name k :: rest) n')
    (isMap : n.isMap) : n'.isMap := by
  cases n with
  | leaf s => cases isMap
  | list xs => cases isMap
  | map es =>
    obtain ⟨child', -, rfl⟩ := writes_name_iff.mp way
    rfl

theorem Wraps.wellFormed (wraps : Wraps node path n') (readable : path.Readable)
    (wf : node.WellFormed) : n'.WellFormed := by
  induction wraps with
  | here => exact wf
  | name _ ih =>
    obtain ⟨isName, later⟩ := List.forall_mem_cons.mp readable
    exact WellFormed.empty.put isName (ih later)
  | first _ ih =>
    obtain ⟨-, later⟩ := List.forall_mem_cons.mp readable
    refine .list (show 1 ≤ Path.indexLimit by decide) fun x mem => ?_
    cases List.mem_singleton.mp mem
    exact ih later

/-- A well-formed tree stays well formed if a well-formed tree is written at a path that has a text. -/
theorem Writes.wellFormed (way : Writes node n path n') (readable : path.Readable)
    (whole : n.WellFormed) (new : node.WellFormed) : n'.WellFormed := by
  induction way with
  | here => exact new
  | entry found _ ih =>
    obtain ⟨isName, later⟩ := List.forall_mem_cons.mp readable
    exact whole.put isName (ih later (whole.entry found).2)
  | newEntry _ wraps =>
    obtain ⟨isName, later⟩ := List.forall_mem_cons.mp readable
    exact whole.put isName (wraps.wellFormed later new)
  | element found _ ih =>
    obtain ⟨-, later⟩ := List.forall_mem_cons.mp readable
    exact whole.set (ih later (whole.element found).2) _
  | newElement wraps =>
    obtain ⟨fits, later⟩ := List.forall_mem_cons.mp readable
    have child := wraps.wellFormed later new
    cases whole with
    | list _ children =>
      refine .list (by rw [List.length_append]; exact fits) fun x mem => ?_
      rcases List.mem_append.mp mem with old | last
      · exact children x old
      · cases List.mem_singleton.mp last
        exact child
  | dropped _ wraps => exact wraps.wellFormed readable new

theorem Wraps.distinctKeys (wraps : Wraps node path n') (keys : node.DistinctKeys) :
    n'.DistinctKeys := by
  induction wraps with
  | here => exact keys
  | @name k _ _ _ ih => exact DistinctKeys.empty.put ih k
  | first _ ih => exact .list (List.forall_mem_singleton.mpr ih)

/-- The keys of maps stay distinct, whatever the path is. -/
theorem Writes.distinctKeys (way : Writes node n path n') (whole : n.DistinctKeys)
    (new : node.DistinctKeys) : n'.DistinctKeys := by
  induction way with
  | here => exact new
  | @entry _ k _ _ _ found _ ih =>
    exact whole.put (ih (whole.entry (Entries.mem_of_get? found))) k
  | @newEntry _ k _ _ _ wraps => exact whole.put (wraps.distinctKeys new) k
  | element found _ ih =>
    have child := ih (whole.element (List.mem_of_getElem? found))
    refine .list fun x mem => ?_
    rcases List.mem_or_eq_of_mem_set mem with old | rfl
    · exact whole.element old
    · exact child
  | newElement wraps =>
    refine .list fun x mem => ?_
    rcases List.mem_append.mp mem with old | last
    · exact whole.element old
    · cases List.mem_singleton.mp last
      exact wraps.distinctKeys new
  | dropped _ wraps => exact wraps.distinctKeys new

/-- Where a write that only fills gaps changes the tree, it writes like any other. -/
theorem fill?_eq_some (filled : fill? build place n path = .ok (some n')) :
    ∃ node, build (place ++ path) = .ok node ∧ Writes node n path n' := by
  induction path generalizing n n' place with
  | nil => cases n <;> cases filled
  | cons step rest ih =>
    match n, step with
    | .leaf s, .name k => cases filled
    | .leaf s, .index i => cases filled
    | .map es, .index i => cases filled
    | .list xs, .name k => cases filled
    | .map es, .name k =>
      have path : place.key k ++ rest = place ++ .name k :: rest := by simp [Path.key]
      rw [fill?] at filled
      split at filled
      · next child found =>
        obtain ⟨child?, inner, made⟩ := bind_eq_ok.mp filled
        obtain ⟨child', rfl, rfl⟩ := Option.map_eq_some_iff.mp (pure_eq_ok.mp made)
        obtain ⟨node, built, way⟩ := ih inner
        exact ⟨node, path ▸ built, .entry found way⟩
      · next missing =>
        split at filled
        · cases filled
        · obtain ⟨child', inner, made⟩ := bind_eq_ok.mp filled
          cases pure_eq_ok.mp made
          obtain ⟨node, built, wraps⟩ := fresh_eq_ok_iff.mp inner
          exact ⟨node, path ▸ built, .newEntry missing wraps⟩
    | .list xs, .index i =>
      have path : place.index i ++ rest = place ++ .index i :: rest := by simp [Path.index]
      rw [fill?] at filled
      split at filled
      · next child found =>
        obtain ⟨child?, inner, made⟩ := bind_eq_ok.mp filled
        obtain ⟨child', rfl, rfl⟩ := Option.map_eq_some_iff.mp (pure_eq_ok.mp made)
        obtain ⟨node, built, way⟩ := ih inner
        exact ⟨node, path ▸ built, .element found way⟩
      · cases filled

end WellFormed

end LayeredConfig.Node
