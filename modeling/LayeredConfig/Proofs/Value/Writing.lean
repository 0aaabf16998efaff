import LayeredConfig.Proofs.Node.Walk
import LayeredConfig.Proofs.Value.RoundTrip

/-!
# When a write fails, and writing again

There are three ways for a write to fail, and each has its own lemma.

1. The walk comes to a list and goes beyond the place behind its last element (`Overruns`, `put_of_overruns`).
2. Fresh containers are made for a part of the path (`FreshPart`), and a list in it is to start with another
  element than its first (`badStart?`, `FreshPart.failure?_put`).
3. The value has no tree (`Value.Buildable`).

Where one write succeeded, the next one at the same path just sets its node there, in the tree before and in
the tree after the first write (`Writes.put_eq`, `put_of_found`). So the first one leaves no trace.
-/

namespace LayeredConfig

/-! ## Fresh containers -/

/-- The position of an element with which no list can start. -/
def Step.badStart? : Step → Option Nat
  | .name _ => none
  | .index i => if i = 0 then none else some i

/-- The last position on a path with which no list can start. -/
def Path.badStart? (path : Path) : Option Nat :=
  path.reverse.findSome? Step.badStart?

theorem Step.badStart?_eq_some_iff {step : Step} {i : Nat} :
    step.badStart? = some i ↔ step = .index i ∧ i ≠ 0 := by
  cases step with
  | name k => simp [badStart?]
  | index j =>
    unfold badStart?
    split
    · next zero => simp [zero, eq_comm]
    · next later => grind

namespace Path

theorem badStart?_cons (step : Step) (rest : Path) :
    badStart? (step :: rest) = (badStart? rest).or step.badStart? := by
  unfold badStart?
  rw [List.reverse_cons, List.findSome?_append, List.findSome?_singleton]

theorem badStart?_mem {path : Path} {i : Nat} (bad : badStart? path = some i) :
    .index i ∈ path ∧ i ≠ 0 := by
  obtain ⟨step, mem, here⟩ := List.exists_of_findSome?_eq_some bad
  obtain ⟨rfl, later⟩ := Step.badStart?_eq_some_iff.mp here
  exact ⟨List.mem_reverse.mp mem, later⟩

theorem exists_badStart? {path : Path} {i : Nat} (mem : .index i ∈ path) (later : i ≠ 0) :
    ∃ j, badStart? path = some j := by
  rw [← Option.isSome_iff_exists, badStart?, List.findSome?_isSome_iff]
  refine ⟨.index i, List.mem_reverse.mpr mem, ?_⟩
  rw [Step.badStart?_eq_some_iff.mpr ⟨rfl, later⟩]
  rfl

end Path

namespace Node

variable {build : Path → Result Node} {n m node : Node} {es : List (String × Node)} {xs : List Node}
  {k : String} {i : Nat} {step : Step} {place path part full start rest : Path}

/-- Fresh containers fail on the last list that does not start with its first element. -/
theorem failure?_wrap (full : Path) (node : Node) (path : Path) :
    failure? (wrap full node path) = path.badStart?.map (badFirstIndex full) := by
  induction path with
  | nil => rfl
  | cons step rest ih =>
    rw [Path.badStart?_cons]
    cases inner : wrap full node rest with
    | error e =>
      rw [inner] at ih
      obtain ⟨i, bad, rfl⟩ := Option.map_eq_some_iff.mp ih.symm
      cases step <;> simp [wrap, inner, bad, failure?, bind, Except.bind]
    | ok made =>
      rw [inner] at ih
      have none := Option.map_eq_none_iff.mp ih.symm
      cases step with
      | name k => simp [wrap, inner, none, Step.badStart?, failure?, bind, Except.bind, pure, Except.pure]
      | index i =>
        by_cases first : i = 0
        · simp [wrap, inner, none, Step.badStart?, first, failure?, bind, Except.bind, pure, Except.pure]
        · simp [wrap, inner, none, Step.badStart?, first, failure?, bind, Except.bind, throw,
            throwThe, MonadExceptOf.throw]

/-! ## The end of the walk -/

/-- The walk comes to a list and the next step goes beyond the place behind its last element. -/
def Overruns (n : Node) (path : Path) : Prop :=
  ∃ start i rest xs, path = start ++ .index i :: rest ∧ n.get? start = some (.list xs) ∧ xs.length < i

/-- The part of the path for which a write makes fresh containers: what comes after a missing entry or after
the place behind a list, or all that comes after a node that has no children of the kind of the next step. -/
inductive FreshPart (n : Node) (path : Path) : Path → Prop
  | newEntry {start rest : Path} {es : List (String × Node)} {k : String} :
      n.StopsAt path start (.map es) (.name k) rest → FreshPart n path rest
  | newElement {start rest : Path} {xs : List Node} :
      n.StopsAt path start (.list xs) (.index xs.length) rest → FreshPart n path rest
  | dropped {start rest : Path} {m : Node} {step : Step} :
      n.StopsAt path start m step rest → m.accepts step = false → FreshPart n path (step :: rest)

/-- A walk gets to its end, or fresh containers are made for a part of it, or it overruns a list. -/
theorem walk_ends (n : Node) (path : Path) :
    (∃ m, n.get? path = some m) ∨ (∃ part, n.FreshPart path part) ∨ n.Overruns path := by
  cases found : n.get? path with
  | some m => exact .inl ⟨m, rfl⟩
  | none =>
    obtain ⟨start, m, step, rest, stops⟩ := exists_stopsAt found
    refine .inr ?_
    match m, step with
    | .leaf s, step => exact .inl ⟨_, .dropped stops rfl⟩
    | .map es, .index i => exact .inl ⟨_, .dropped stops rfl⟩
    | .list xs, .name k => exact .inl ⟨_, .dropped stops rfl⟩
    | .map es, .name k => exact .inl ⟨_, .newEntry stops⟩
    | .list xs, .index i =>
      have behind := List.getElem?_eq_none_iff.mp (get?_element_eq_none_iff.mp stops.missing)
      rcases Nat.eq_or_lt_of_le behind with rfl | beyond
      · exact .inl ⟨_, .newElement stops⟩
      · exact .inr ⟨start, i, rest, xs, stops.path, stops.leads, beyond⟩

/-- A write to a node that is there sets the new node in its place. -/
theorem put_of_found (found : n.get? path = some m) (build : Path → Result Node) (place : Path) :
    n.put build place path = n.setAt path <$> build (place ++ path) := by
  have whole := put_append found build place []
  rwa [List.append_nil, put_nil] at whole

theorem put_of_overruns (path_ : path = start ++ .index i :: rest) (leads : n.get? start = some (.list xs))
    (beyond : xs.length < i) (build : Path → Result Node) (place : Path) :
    n.put build place path = .error (beyondList (place ++ start ++ [.index i]) xs.length) := by
  rw [path_, put_append leads, put, if_pos beyond]
  rfl

/-- A write that makes fresh containers fails like the tree that it builds, and else like the containers. -/
theorem FreshPart.failure?_put (fresh_ : n.FreshPart path part) (build : Path → Result Node)
    (place : Path) :
    failure? (n.put build place path) =
      (failure? (build (place ++ path))).or (part.badStart?.map (badFirstIndex (place ++ path))) := by
  -- whatever is done with the containers does not fail
  have made : ∃ use : Node → Node, n.put build place path =
      use <$> (build (place ++ path) >>= fun node => wrap (place ++ path) node part) := by
    cases fresh_ with
    | @newEntry start rest es k stops =>
      have missing := get?_entry_eq_none_iff.mp stops.missing
      refine ⟨fun child => n.setAt start (.map (Entries.put es k child)), ?_⟩
      rw [stops.path, put_append stops.leads, put, missing, bind_pure_comp, ← comp_map]
      simp only [fresh, Path.key, List.append_assoc, List.singleton_append]
      rfl
    | @newElement start rest xs stops =>
      refine ⟨fun child => n.setAt start (.list (xs ++ [child])), ?_⟩
      rw [stops.path, put_append stops.leads, put, if_neg (Nat.lt_irrefl _),
        List.getElem?_eq_none (Nat.le_refl _)]
      simp only [fresh, Path.index, List.append_assoc, List.singleton_append, bind_pure_comp,
        ← comp_map]
      rfl
    | @dropped start rest m step stops refused =>
      refine ⟨n.setAt start, ?_⟩
      rw [stops.path, put_append stops.leads, put_refused refused, fresh, List.append_assoc]
  obtain ⟨use, same⟩ := made
  rw [same, failure?_map]
  cases build (place ++ path) with
  | error e => rfl
  | ok node => exact failure?_wrap (place ++ path) node part

/-! ## Writing again -/

theorem Wraps.wrap_eq (wraps : Wraps node path n) (full : Path) (new : Node) :
    wrap full new path = .ok (n.setAt path new) := by
  induction wraps with
  | here => rw [wrap, setAt_nil]
  | @name k rest inner _ ih =>
    have isChild : IsChild (.map [(k, inner)]) (.name k) inner := .entry (if_pos rfl)
    rw [wrap, ih, isChild.setAt, setChild, Entries.put, if_pos rfl]
    rfl
  | @first rest inner _ ih =>
    have isChild : IsChild (.list [inner]) (.index 0) inner := .element rfl
    rw [wrap, ih, isChild.setAt]
    rfl

theorem Wraps.fresh_eq (wraps : Wraps node path n) (build : Path → Result Node) (place : Path) :
    fresh build place path = n.setAt path <$> build (place ++ path) := by
  rw [fresh]
  cases build (place ++ path) with
  | error e => rfl
  | ok new => exact wraps.wrap_eq _ new

/-- After a write, any other write at the path of the first one, into the tree before it, comes to setting its
node in the tree after it. -/
theorem Writes.put_eq (way : Writes node n path m) (build : Path → Result Node) (place : Path) :
    n.put build place path = m.setAt path <$> build (place ++ path) := by
  induction way generalizing place with
  | here =>
    rw [put_nil, List.append_nil, show node.setAt [] = id from funext (setAt_nil node), id_map]
  | @entry es k rest child child' found _ ih =>
    have old : IsChild (.map es) (.name k) child := .entry found
    have set : (Node.map (Entries.put es k child')).setAt (.name k :: rest) =
        (Node.map es).setChild (.name k) ∘ child'.setAt rest := by
      funext new
      exact ((old.set child').setAt rest new).trans (setChild_setChild _ _ _ _)
    rw [old.put, ih, set, comp_map, List.append_assoc, List.singleton_append]
  | @element xs i rest child child' found _ ih =>
    have old : IsChild (.list xs) (.index i) child := .element found
    have set : (Node.list (xs.set i child')).setAt (.index i :: rest) =
        (Node.list xs).setChild (.index i) ∘ child'.setAt rest := by
      funext new
      exact ((old.set child').setAt rest new).trans (setChild_setChild _ _ _ _)
    rw [old.put, ih, set, comp_map, List.append_assoc, List.singleton_append]
  | @newEntry es k rest child' missing wraps =>
    have new : IsChild (.map (Entries.put es k child')) (.name k) child' :=
      .entry (Entries.get?_put_self es k child')
    have set : (Node.map (Entries.put es k child')).setAt (.name k :: rest) =
        (fun child => .map (Entries.put es k child)) ∘ child'.setAt rest := by
      funext x
      rw [new.setAt, setChild, Entries.put_put]
      rfl
    rw [put, missing, set, comp_map]
    simp only [wraps.fresh_eq, bind_pure_comp, Path.key, List.append_assoc, List.singleton_append]
  | @newElement xs rest child' wraps =>
    have new : IsChild (.list (xs ++ [child'])) (.index xs.length) child' := .element (by simp)
    have set : (Node.list (xs ++ [child'])).setAt (.index xs.length :: rest) =
        (fun child => .list (xs ++ [child])) ∘ child'.setAt rest := by
      funext x
      rw [new.setAt, setChild, List.set_append_right _ _ (Nat.le_refl _), Nat.sub_self]
      rfl
    rw [put, if_neg (Nat.lt_irrefl _), List.getElem?_eq_none (Nat.le_refl _), set, comp_map]
    simp only [wraps.fresh_eq, bind_pure_comp, Path.index, List.append_assoc, List.singleton_append]
  | @dropped n m step rest refused wraps => rw [put_refused refused, wraps.fresh_eq]

end Node

/-! ## Values -/

namespace Value

/-- The value has a tree, wherever it stands (`buildable_iff`). -/
def Buildable (v : Value) : Prop :=
  ∃ n, v.toNode .root = .ok n

theorem buildable_iff (v : Value) (place : Path) : v.Buildable ↔ failure? (v.toNode place) = none := by
  rw [failure?_eq_none_iff]
  constructor
  · rintro ⟨n, built⟩
    exact ⟨n, toNode_place built place⟩
  · rintro ⟨n, built⟩
    exact ⟨n, toNode_place built .root⟩

end Value

namespace Node

/-- A write fails exactly if it overruns a list, or has to start a fresh list with another element than its
first, or its value has no tree. Something is missing in the first case, and in the second one if the value
has a tree. A write replaces all of what another one left at its path, and what was found at a path is not
changed by writing its value there. -/
theorem putValue_fails_iff (n : Node) (place path : Path) (value : Value) :
    ((∃ e, n.putValue place path value = .error e) ↔
        n.Overruns path ∨ (∃ part i, n.FreshPart path part ∧ .index i ∈ part ∧ i ≠ 0) ∨
          ¬ value.Buildable) ∧
      (∀ start i rest xs, path = start ++ .index i :: rest → n.get? start = some (.list xs) →
        xs.length < i → ∃ e, n.putValue place path value = .error e ∧ e.kind = .missingValue ∧
          e.path? = some (Path.text (place ++ start ++ [.index i]))) ∧
      (∀ part i, n.FreshPart path part → .index i ∈ part → i ≠ 0 → value.Buildable →
        ∃ e, n.putValue place path value = .error e ∧ e.kind = .missingValue ∧
          e.path? = some (Path.text (place ++ path))) ∧
      (∀ first n', n.putValue place path first = .ok n' →
        n'.putValue place path value = n.putValue place path value) ∧
      ∀ m, n.WellFormed → n.get? path = some m → m.Resolved →
        n.putValue place path m.toValue = .ok n := by
  have built := value.buildable_iff (place ++ path)
  refine ⟨⟨?fails, ?failing⟩, ?overrun, ?badStart, ?again, ?back⟩
  case fails =>
    rintro ⟨e, failed⟩
    rw [← failure?_eq_some_iff, putValue] at failed
    rcases walk_ends n path with ⟨m, found⟩ | ⟨part, fresh_⟩ | beyond
    · rw [put_of_found found, failure?_map] at failed
      exact .inr (.inr fun buildable => by rw [built.mp buildable] at failed; cases failed)
    · rw [fresh_.failure?_put] at failed
      by_cases buildable : value.Buildable
      · rw [built.mp buildable, Option.none_or] at failed
        obtain ⟨i, bad, -⟩ := Option.map_eq_some_iff.mp failed
        obtain ⟨mem, later⟩ := Path.badStart?_mem bad
        exact .inr (.inl ⟨part, i, fresh_, mem, later⟩)
      · exact .inr (.inr buildable)
    · exact .inl beyond
  case failing =>
    simp only [← failure?_eq_some_iff, ← Option.isSome_iff_exists, putValue]
    rintro (⟨start, i, rest, xs, path_, leads, beyond⟩ | ⟨part, i, fresh_, mem, later⟩ | unbuildable)
    · rw [put_of_overruns path_ leads beyond]
      rfl
    · obtain ⟨j, bad⟩ := Path.exists_badStart? mem later
      rw [fresh_.failure?_put, bad]
      simp
    · have fails : (failure? (value.toNode (place ++ path))).isSome = true := by
        rwa [← Option.ne_none_iff_isSome, ne_eq, ← built]
      rcases walk_ends n path with ⟨m, found⟩ | ⟨part, fresh_⟩ | ⟨start, i, rest, xs, path_, leads, beyond⟩
      · rwa [put_of_found found, failure?_map]
      · rw [fresh_.failure?_put, Option.isSome_or, fails, Bool.true_or]
      · rw [put_of_overruns path_ leads beyond]
        rfl
  case overrun =>
    intro start i rest xs path_ leads beyond
    exact ⟨_, put_of_overruns path_ leads beyond _ _, rfl, rfl⟩
  case badStart =>
    intro part i fresh_ mem later buildable
    obtain ⟨j, bad⟩ := Path.exists_badStart? mem later
    refine ⟨badFirstIndex (place ++ path) j, ?_, rfl, rfl⟩
    rw [← failure?_eq_some_iff, putValue, fresh_.failure?_put, built.mp buildable, bad]
    rfl
  case again =>
    intro first n' written
    obtain ⟨node, -, way⟩ := put_eq_ok_iff.mp written
    rw [putValue, putValue, put_of_found way.get?_self, way.put_eq]
  case back =>
    intro m wf found resolved
    rw [putValue, put_of_found found, toNode_toValue (wf.get? found).2 resolved]
    exact congrArg Except.ok (setAt_self found)

/-- A list with one element grows by the next one only, and a fresh list starts with its first element. -/
theorem putValue_fails_iff_ports :
    let port : Node := .leaf (.literal (.integer 80))
    let n : Node := .map [("ports", .list [port])]
    let new : Path := [.name "ports", .index 1, .name "http"]
    (∃ e, n.putValue .root [.name "ports", .index 2] (.string "a") = .error e ∧
        e.kind = .missingValue ∧ e.path? = some "ports[2]") ∧
      (∃ e, n.putValue .root [.name "hosts", .index 1] (.string "a") = .error e ∧
        e.kind = .missingValue ∧ e.path? = some "hosts[1]") ∧
      (∃ e, n.putValue .root [.name "ports", .index 0] .null = .error e) ∧
      (∃ n', n.putValue .root new (.string "a") = .ok n' ∧
        n'.putValue .root new (.string "b") = n.putValue .root new (.string "b")) ∧
      n.putValue .root [.name "ports"] (Node.toValue (.list [port])) = .ok n := by
  intro port n new
  obtain ⟨-, beyond, -⟩ := putValue_fails_iff n .root [.name "ports", .index 2] (.string "a")
  obtain ⟨-, -, bad, -⟩ := putValue_fails_iff n .root [.name "hosts", .index 1] (.string "a")
  obtain ⟨fails, -⟩ := putValue_fails_iff n .root [.name "ports", .index 0] .null
  obtain ⟨-, -, -, again, -⟩ := putValue_fails_iff n .root new (.string "b")
  obtain ⟨-, -, -, -, back⟩ := putValue_fails_iff n .root [.name "ports"] .null
  have wf : n.WellFormed := by
    refine .map (by simp [Entries.keys]) (fun k child mem => ?_) fun k child mem => ?_ <;>
      cases List.mem_singleton.mp mem
    · decide
    · exact .list (show 1 ≤ Path.indexLimit by decide) (List.forall_mem_singleton.mpr (.leaf _))
  refine ⟨?_, ?_, ?_, ?_, ?_⟩
  · exact beyond [.name "ports"] 2 [] [port] rfl rfl (by decide)
  · have stops : n.StopsAt [.name "hosts", .index 1] [] n (.name "hosts") [.index 1] := ⟨rfl, rfl, rfl⟩
    exact bad [.index 1] 1 (.newEntry stops) List.mem_cons_self (by decide) ⟨_, rfl⟩
  · refine fails.mpr (.inr (.inr ?_))
    rintro ⟨_, built⟩
    cases built
  · exact ⟨_, rfl, again (.string "a") _ rfl⟩
  · exact back (.list [port]) wf rfl (.list (List.forall_mem_singleton.mpr (.leaf _)))

end Node

end LayeredConfig
