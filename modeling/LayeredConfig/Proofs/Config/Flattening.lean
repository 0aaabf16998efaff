import LayeredConfig.Proofs.Config.Reachable

/-!
# Trees from their leaves

The leaves of a tree, written one after the other into an empty tree, make the tree again, with its keys
in the same order (`ofPairs_leaves`). This needs that every container has a leaf below it, since nothing
is written for an empty one.

Depth-first order is what makes it work. A write finds the containers of the leaf before it, and what it
still has to make is an entry at the end of a map or an element at the end of a list, or the first of a
new one. `Grows` is a number of writes into a tree, and `Sprouts` the writes that make a tree where
nothing was.
-/

namespace LayeredConfig

namespace Node

variable {n n' m child : Node} {place : Path} {k : String} {es done : List (String × Node)}
  {xs before : List Node} {leaves more : List (Path × Scalar)}

/-! ## Trees without empty containers -/

/-- No map and no list in the tree is empty. -/
def Full (n : Node) : Prop :=
  ∀ p m, n.get? p = some m → m.isEmpty = false

theorem full_leaf (s : Scalar) : Full (.leaf s) := by
  intro p m found
  cases p with
  | nil =>
    cases found
    rfl
  | cons step rest =>
    rw [get?_leaf_cons] at found
    cases found

theorem full_map_iff : Full (.map es) ↔
    es ≠ [] ∧ ∀ k child, Entries.get? es k = some child → child.Full := by
  constructor
  · refine fun full => ⟨fun empty => ?_, fun k child here p m found => full (.name k :: p) m ?_⟩
    · subst empty
      cases full [] _ rfl
    · rw [get?_name, here]
      exact found
  · rintro ⟨some, each⟩ p m found
    match p with
    | [] =>
      cases found
      exact List.isEmpty_eq_false_iff.mpr some
    | .index i :: rest => cases found
    | .name k :: rest =>
      rw [get?_name] at found
      obtain ⟨child, here, below⟩ := Option.bind_eq_some_iff.mp found
      exact each k child here rest m below

theorem full_list_iff : Full (.list xs) ↔ xs ≠ [] ∧ ∀ x ∈ xs, x.Full := by
  constructor
  · refine fun full => ⟨fun empty => ?_, fun x mem p m found => ?_⟩
    · subst empty
      cases full [] _ rfl
    · obtain ⟨i, here⟩ := List.mem_iff_getElem?.mp mem
      refine full (.index i :: p) m ?_
      rw [get?_index, here]
      exact found
  · rintro ⟨some, each⟩ p m found
    match p with
    | [] =>
      cases found
      exact List.isEmpty_eq_false_iff.mpr some
    | .name k :: rest => cases found
    | .index i :: rest =>
      rw [get?_index] at found
      obtain ⟨child, here, below⟩ := Option.bind_eq_some_iff.mp found
      exact each child (List.mem_of_getElem? here) rest m below

/-! ## Writes one after the other -/

/-- Leaves are written into a tree at `place` one after the other. -/
inductive Grows (place : Path) : Node → List (Path × Scalar) → Node → Prop
  | done {n : Node} : Grows place n [] n
  | write {n m n' : Node} {p : Path} {s : Scalar} {more : List (Path × Scalar)} :
      Writes (.leaf s) n p m → Grows place m more n' → Grows place n ((place ++ p, s) :: more) n'

theorem Grows.append (first : Grows place n leaves m) (second : Grows place m more n') :
    Grows place n (leaves ++ more) n' := by
  induction first with
  | done => exact second
  | write way _ ih => exact .write way (ih second)

/-- Leaves are written where nothing was. The first one makes fresh containers, and the others go into
these. -/
def Sprouts (place : Path) (leaves : List (Path × Scalar)) (n : Node) : Prop :=
  ∃ p s more m, leaves = (place ++ p, s) :: more ∧ Wraps (.leaf s) p m ∧ Grows place m more n

/-! ## The last child -/

/-- What is written below the last entry of a map. -/
theorem Grows.entry (missing : Entries.get? done k = none)
    (grows : Grows (place.key k) child leaves n) :
    Grows place (.map (done ++ [(k, child)])) leaves (.map (done ++ [(k, n)])) := by
  induction grows with
  | done => exact .done
  | @write child m _ p s more way _ ih =>
    have path : place.key k ++ p = place ++ .name k :: p := by simp [Path.key]
    have last (child : Node) : Entries.put done k child = done ++ [(k, child)] :=
      Entries.put_of_get?_eq_none missing child
    have below := Writes.entry (Entries.get?_put_self done k child) way
    rw [Entries.put_put, last, last] at below
    exact path ▸ .write below ih

/-- What is written below the last element of a list. -/
theorem Grows.element (before : List Node)
    (grows : Grows (place.index before.length) child leaves n) :
    Grows place (.list (before ++ [child])) leaves (.list (before ++ [n])) := by
  induction grows with
  | done => exact .done
  | @write child m _ p s more way _ ih =>
    have path : place.index before.length ++ p = place ++ .index before.length :: p := by
      simp [Path.index]
    have found : (before ++ [child])[before.length]? = some child := by simp
    have below := Writes.element found way
    rw [List.set_append_right _ _ (Nat.le_refl _), Nat.sub_self, List.set_cons_zero] at below
    exact path ▸ .write below ih

/-- A new entry comes to the end of a map. -/
theorem Sprouts.entry (missing : Entries.get? done k = none)
    (sprouts : Sprouts (place.key k) leaves n) :
    Grows place (.map done) leaves (.map (done ++ [(k, n)])) := by
  obtain ⟨p, s, more, m, rfl, wraps, grows⟩ := sprouts
  have path : place.key k ++ p = place ++ .name k :: p := by simp [Path.key]
  have first := Writes.newEntry missing wraps
  rw [Entries.put_of_get?_eq_none missing] at first
  exact path ▸ .write first (grows.entry missing)

/-- A new element comes to the end of a list. -/
theorem Sprouts.element (sprouts : Sprouts (place.index before.length) leaves n) :
    Grows place (.list before) leaves (.list (before ++ [n])) := by
  obtain ⟨p, s, more, m, rfl, wraps, grows⟩ := sprouts
  have path : place.index before.length ++ p = place ++ .index before.length :: p := by
    simp [Path.index]
  exact path ▸ .write (.newElement wraps) (grows.element before)

/-! ## A tree from its leaves -/

/-- The leaves below entries bring one entry after the other. -/
theorem grows_entries (distinct : (Entries.keys (done ++ es)).Nodup)
    (each : ∀ k child, (k, child) ∈ es → Sprouts (place.key k) (child.leaves (place.key k)) child) :
    Grows place (.map done) (leavesOfEntries place es) (.map (done ++ es)) := by
  induction es generalizing done with
  | nil =>
    rw [leavesOfEntries, List.append_nil]
    exact .done
  | cons entry rest ih =>
    obtain ⟨k, child⟩ := entry
    have missing := Entries.get?_eq_none_of_nodup distinct
    have here := (each k child List.mem_cons_self).entry missing
    have later : Grows place (.map (done ++ [(k, child)])) (leavesOfEntries place rest)
        (.map (done ++ [(k, child)] ++ rest)) :=
      ih (by rwa [List.append_assoc]) fun k child mem => each k child (List.mem_cons_of_mem _ mem)
    rw [List.append_assoc] at later
    rw [leavesOfEntries]
    exact here.append later

theorem grows_elements
    (each : ∀ x ∈ xs, ∀ i, Sprouts (place.index i) (x.leaves (place.index i)) x) :
    Grows place (.list before) (leavesOfElements place before.length xs) (.list (before ++ xs)) := by
  induction xs generalizing before with
  | nil =>
    rw [leavesOfElements, List.append_nil]
    exact .done
  | cons x rest ih =>
    obtain ⟨first, others⟩ := List.forall_mem_cons.mp each
    have here := (first before.length).element
    have later : Grows place (.list (before ++ [x]))
        (leavesOfElements place (before ++ [x]).length rest) (.list (before ++ [x] ++ rest)) := ih others
    rw [List.length_append, List.length_singleton, List.append_assoc] at later
    rw [leavesOfElements]
    exact here.append later

/-- A tree without empty containers comes from its leaves, also where nothing was. -/
theorem sprouts_leaves (keys : n.DistinctKeys) (full : n.Full) (place : Path) :
    Sprouts place (n.leaves place) n := by
  induction n using Node.induction generalizing place with
  | leaf s => exact ⟨[], s, [], .leaf s, by simp [leaves], .here, .done⟩
  | map es ih =>
    obtain ⟨some, each⟩ := full_map_iff.mp full
    have children : ∀ k child, (k, child) ∈ es →
        Sprouts (place.key k) (child.leaves (place.key k)) child := fun k child mem =>
      ih k child mem (keys.entry mem) (each k child (Entries.get?_eq_some_of_mem keys.distinct mem)) _
    cases es with
    | nil => exact absurd rfl some
    | cons entry rest =>
      obtain ⟨k, child⟩ := entry
      -- the first leaf of the first entry makes the map
      obtain ⟨p, s, more, m, leaves, wraps, grows⟩ := children k child List.mem_cons_self
      have path : place.key k ++ p = place ++ .name k :: p := by simp [Path.key]
      have others : Grows place (.map [(k, child)]) (leavesOfEntries place rest)
          (.map ((k, child) :: rest)) :=
        grows_entries keys.distinct fun k child mem => children k child (List.mem_cons_of_mem _ mem)
      refine ⟨.name k :: p, s, more ++ leavesOfEntries place rest, .map [(k, m)], ?_, .name wraps, ?_⟩
      · rw [Node.leaves, leavesOfEntries, leaves, path, List.cons_append]
      · have missing : Entries.get? ([] : List (String × Node)) k = none := rfl
        have one : Grows place (.map [(k, m)]) more (.map [(k, child)]) := grows.entry missing
        exact one.append others
  | list xs ih =>
    obtain ⟨some, each⟩ := full_list_iff.mp full
    have children : ∀ x ∈ xs, ∀ i, Sprouts (place.index i) (x.leaves (place.index i)) x :=
      fun x mem i => ih x mem (keys.element mem) (each x mem) _
    cases xs with
    | nil => exact absurd rfl some
    | cons x rest =>
      obtain ⟨p, s, more, m, leaves, wraps, grows⟩ := children x List.mem_cons_self 0
      have path : place.index 0 ++ p = place ++ .index 0 :: p := by simp [Path.index]
      have others : Grows place (.list [x]) (leavesOfElements place 1 rest) (.list (x :: rest)) :=
        grows_elements fun x mem => children x (List.mem_cons_of_mem _ mem)
      refine ⟨.index 0 :: p, s, more ++ leavesOfElements place 1 rest, .list [m], ?_, .first wraps, ?_⟩
      · rw [Node.leaves, leavesOfElements, leaves, path, List.cons_append]
      · have one : Grows place (.list [m]) more (.list [x]) := grows.element []
        exact one.append others

end Node

/-! ## Configurations -/

namespace Path

theorem parseAbsolute_text {k : String} {rest : Path} (readable : Readable (.name k :: rest)) :
    parseAbsolute (text (.name k :: rest)) = .ok (.name k :: rest) :=
  bind_eq_ok.mpr ⟨_, parse_text readable, rfl⟩

end Path

namespace Config

variable {c : Config} {n : Node} {leaves : List (Path × Scalar)}

/-- A leaf as it is given to `ofPairs`. -/
def pairOf (leaf : Path × Scalar) : String × Value :=
  (leaf.1.text, .literal leaf.2.plain)

theorem put_pairOf {k : String} {rest : Path} {l : Literal}
    (readable : Path.Readable (.name k :: rest))
    (way : Node.Writes (.leaf (.literal l)) c.root (.name k :: rest) n) :
    c.put (Path.text (.name k :: rest)) (.literal l) = .ok (c.withRoot n) := by
  have written : c.root.putValue .root (.name k :: rest) (.literal l) = .ok n :=
    Node.put_eq_ok_iff.mpr ⟨_, rfl, way⟩
  refine bind_eq_ok.mpr ⟨_, Path.parseAbsolute_text readable, ?_⟩
  exact bind_eq_ok.mpr ⟨n, written, rfl⟩

/-- Leaves that can be written into the tree can be put into the configuration by their texts. -/
theorem foldlM_put_of_grows (grows : Node.Grows .root c.root leaves n)
    (each : ∀ leaf ∈ leaves, leaf.1.Readable ∧ (∃ k rest, leaf.1 = .name k :: rest) ∧
      leaf.2.isExpression = false) :
    (leaves.map pairOf).foldlM (fun c (path, value) => c.put path value) c = .ok (c.withRoot n) := by
  generalize root : c.root = start at grows
  induction grows generalizing c with
  | done =>
    subst root
    rfl
  | @write _ m n p s more way _ ih =>
    subst root
    obtain ⟨⟨readable, ⟨k, rest, path⟩, resolved⟩, later⟩ := List.forall_mem_cons.mp each
    cases s with
    | expression e => cases resolved
    | literal l =>
      change p = _ at path
      subst path
      rw [List.map_cons, List.foldlM_cons]
      exact bind_eq_ok.mpr ⟨c.withRoot m, put_pairOf readable way, ih (c := c.withRoot m) later rfl⟩

/-- A configuration without expressions, and without empty maps and lists below its root, comes from its
leaves. They are put into an empty configuration one after the other, depth first, each under the text of
its path. All writes succeed, and the tree is the same again, with its keys in the same order. -/
theorem ofPairs_leaves (reached : c.Reachable)
    (resolved : ∀ p s, (p, s) ∈ c.root.leaves .root → s.isExpression = false)
    (full : ∀ p n, p ≠ .root → c.root.get? p = some n → n.isEmpty = false) :
    ofPairs ((c.root.leaves .root).map fun (p, s) => (p.text, .literal s.plain)) =
      .ok (empty.withRoot c.root) := by
  obtain ⟨isMap, wf⟩ := reached.sound
  have keys := wf.distinctKeys
  match root : c.root, isMap with
  | .map es, _ =>
    rw [root] at resolved full wf keys
    have children : ∀ k child, (k, child) ∈ es →
        Node.Sprouts (Path.root.key k) (child.leaves (Path.root.key k)) child := by
      intro k child mem
      refine Node.sprouts_leaves (keys.entry mem) (fun p m found => ?_) _
      refine full (.name k :: p) m (List.cons_ne_nil _ _) ?_
      rw [Node.get?_name, Entries.get?_eq_some_of_mem keys.distinct mem]
      exact found
    have grown : Node.Grows .root Node.empty (Node.leaves .root (.map es)) (.map es) :=
      Node.grows_entries keys.distinct children
    refine foldlM_put_of_grows (c := empty) grown fun (p, s) mem => ?_
    refine ⟨wf.readable mem, ?_, resolved p s mem⟩
    obtain ⟨k, child, -, below⟩ := Node.mem_leavesOfEntries_iff.mp mem
    obtain ⟨rest, path⟩ := Node.starts_of_mem_leaves below
    exact ⟨k, rest, path.symm⟩

/-- A list in a list, a map in a list, and a float that is not a number. -/
theorem ofPairs_leaves_nested :
    let nan : Literal := .float ⟨0x7ff8000000000001⟩
    let root : Node := .map [
      ("l", .list [.list [.leaf (.literal (.integer 1))], .map [("b", .leaf (.literal nan))]]),
      ("a", .leaf (.literal (.string "x")))]
    (empty.withRoot root).Reachable ∧
      ofPairs [("l[0][0]", .literal (.integer 1)), ("l[1].b", .literal nan),
        ("a", .literal (.string "x"))] = .ok (empty.withRoot root) := by
  intro nan root
  let list : Node := .list [.list [.leaf (.literal (.integer 1))], .map [("b", .leaf (.literal nan))]]
  let value : Value := .sequence [.sequence [.literal (.integer 1)], .mapping [("b", .literal nan)]]
  have first : empty.put "l" value = .ok (empty.withRoot (.map [("l", list)])) :=
    bind_eq_ok.mpr ⟨[.name "l"], by cbv, by cbv⟩
  have second : (empty.withRoot (.map [("l", list)])).put "a" (.string "x") =
      .ok (empty.withRoot root) := bind_eq_ok.mpr ⟨[.name "a"], by cbv, by cbv⟩
  have admissible : value.Admissible := by
    refine .sequence (by decide) ?_
    simp only [List.forall_mem_cons, List.not_mem_nil, false_imp_iff, implies_true, and_true]
    refine ⟨.sequence (by decide) (List.forall_mem_singleton.mpr (.literal _)), .mapping ?_⟩
    intro key v mem
    cases List.mem_singleton.mp mem
    exact .literal _
  have reached : (empty.withRoot root).Reachable := .put (.put .empty admissible first) (.literal _) second
  have one : Node.Full (.list [.leaf (.literal (.integer 1))]) :=
    Node.full_list_iff.mpr ⟨List.cons_ne_nil _ _, List.forall_mem_singleton.mpr (Node.full_leaf _)⟩
  have map : Node.Full (.map [("b", .leaf (.literal nan))]) := by
    refine Node.full_map_iff.mpr ⟨List.cons_ne_nil _ _, fun k child found => ?_⟩
    cases List.mem_singleton.mp (Entries.mem_of_get? found)
    exact Node.full_leaf _
  have whole : root.Full := by
    refine Node.full_map_iff.mpr ⟨List.cons_ne_nil _ _, fun k child found => ?_⟩
    have mem := Entries.mem_of_get? found
    simp only [List.mem_cons, Prod.mk.injEq, List.not_mem_nil, or_false] at mem
    obtain ⟨-, rfl⟩ | ⟨-, rfl⟩ := mem
    · exact Node.full_list_iff.mpr ⟨List.cons_ne_nil _ _,
        List.forall_mem_cons.mpr ⟨one, List.forall_mem_singleton.mpr map⟩⟩
    · exact Node.full_leaf _
  have resolved : ∀ p s, (p, s) ∈ root.leaves .root → s.isExpression = false := by
    intro p s mem
    have leaf : s = .literal (.integer 1) ∨ s = .literal nan ∨ s = .literal (.string "x") := by
      simp [root, Node.leaves, Node.leavesOfEntries, Node.leavesOfElements] at mem
      grind
    rcases leaf with rfl | rfl | rfl <;> rfl
  have written := ofPairs_leaves reached resolved fun p n _ found => whole p n found
  exact ⟨reached, written⟩

end Config

end LayeredConfig
