import LayeredConfig.Proofs.Config.Reachable

/-!
# Trees as values, and back

The value of a tree is built into the same tree again, wherever it stands (`Node.toNode_toValue`). Two
things have to hold of the tree: it is well formed, since keys are read as paths, and it is `Resolved`,
since the value of an expression is a text. Trees of values are well formed, and resolved if the
configurations spliced into the value are (`Value.Resolved.toNode`).

A value that already looks like the value of a tree is `Value.Plain`, and is the value of its own tree
(`Value.Plain.toNode`).
-/

namespace LayeredConfig

open Node (Writes Wraps)

/-! ## Trees without expressions -/

namespace Node

/-- A tree whose leaves all hold literals. -/
inductive Resolved : Node → Prop
  | leaf (l : Literal) : Resolved (.leaf l)
  | map {es : List (String × Node)} (children : ∀ k child, (k, child) ∈ es → Resolved child) :
      Resolved (.map es)
  | list {xs : List Node} (children : ∀ x ∈ xs, Resolved x) : Resolved (.list xs)

namespace Resolved

variable {n n' node child : Node} {es : List (String × Node)} {xs : List Node} {k : String} {i : Nat}
  {path : Path}

theorem empty : Resolved .empty :=
  .map fun _ _ mem => absurd mem List.not_mem_nil

theorem entry (resolved : Resolved (.map es)) (mem : (k, child) ∈ es) : child.Resolved := by
  cases resolved with
  | map children => exact children k child mem

theorem element (resolved : Resolved (.list xs)) (mem : child ∈ xs) : child.Resolved := by
  cases resolved with
  | list children => exact children child mem

theorem put (resolved : Resolved (.map es)) (new : child.Resolved) :
    Resolved (.map (Entries.put es k child)) := by
  refine .map fun k' child' mem => ?_
  rcases Entries.mem_put mem with same | old
  · cases same
    exact new
  · exact resolved.entry old

theorem wraps (way : Wraps node path n') (new : node.Resolved) : n'.Resolved := by
  induction way with
  | here => exact new
  | name _ ih => exact Resolved.empty.put ih
  | first _ ih => exact .list (List.forall_mem_singleton.mpr ih)

/-- A write adds no expressions but those of the tree that it writes. -/
theorem writes (way : Writes node n path n') (whole : n.Resolved) (new : node.Resolved) :
    n'.Resolved := by
  induction way with
  | here => exact new
  | entry found _ ih => exact whole.put (ih (whole.entry (Entries.mem_of_get? found)))
  | newEntry _ way => exact whole.put (wraps way new)
  | element found _ ih =>
    refine .list fun x mem => ?_
    rcases List.mem_or_eq_of_mem_set mem with old | rfl
    · exact whole.element old
    · exact ih (whole.element (List.mem_of_getElem? found))
  | newElement way =>
    refine .list fun x mem => ?_
    rcases List.mem_append.mp mem with old | last
    · exact whole.element old
    · rw [List.mem_singleton.mp last]
      exact wraps way new
  | dropped _ way => exact wraps way new

end Resolved

/-- The leaves of the tree are no expressions. -/
theorem resolved_iff (n : Node) (place : Path) :
    n.Resolved ↔ ∀ leaf ∈ n.leaves place, leaf.2.isExpression = false := by
  induction n using Node.induction generalizing place with
  | leaf s =>
    rw [leaves, List.forall_mem_singleton]
    cases s with
    | literal l => exact iff_of_true (.leaf l) rfl
    | expression e => exact iff_of_false nofun nofun
  | map es ih =>
    rw [leaves]
    constructor
    · intro resolved leaf mem
      obtain ⟨k, child, there, below⟩ := mem_leavesOfEntries_iff.mp mem
      exact (ih k child there _).mp (resolved.entry there) leaf below
    · intro each
      refine .map fun k child there => (ih k child there (place.key k)).mpr ?_
      exact fun leaf below => each leaf (mem_leavesOfEntries_iff.mpr ⟨k, child, there, below⟩)
  | list xs ih =>
    rw [leaves]
    constructor
    · intro resolved leaf mem
      obtain ⟨i, child, found, below⟩ := mem_leavesOfElements_iff.mp mem
      have there := List.mem_of_getElem? found
      exact (ih child there _).mp (resolved.element there) leaf below
    · intro each
      refine .list fun x there => ?_
      obtain ⟨i, found⟩ := List.mem_iff_getElem?.mp there
      refine (ih x there (place.index (0 + i))).mpr fun leaf below => ?_
      exact each leaf (mem_leavesOfElements_iff.mpr ⟨i, x, found, below⟩)

end Node

namespace Path

/-- A name, as a key, is the path of one step. -/
theorem parseAbsolute_name {k : String} (isName : IsName k) : parseAbsolute k = .ok [.name k] := by
  have readable : Readable [.name k] := List.forall_mem_singleton.mpr isName
  have read : parse k = .ok [.name k] := by
    have read := parse_text readable
    rwa [text, chars, List.flatMap_nil, List.append_nil, String.ofList_toList] at read
  exact bind_eq_ok.mpr ⟨_, read, rfl⟩

end Path

/-! ## The value of a tree -/

namespace Node

variable {n : Node} {es : List (String × Node)} {xs : List Node} {place : Path}

theorem isNull_toValue (n : Node) : n.toValue.isNull = false := by
  cases n <;> rfl

/-- Each entry goes to the end of the map, since its key is a name that is not there yet. -/
theorem entriesToNode_entriesToValue (fs : List (String × Node))
    (distinct : (Entries.keys (fs ++ es)).Nodup)
    (names : ∀ k child, (k, child) ∈ es → Path.IsName k)
    (each : ∀ k child, (k, child) ∈ es → ∀ place, child.toValue.toNode place = .ok child) :
    Value.entriesToNode place (entriesToValue es) (.map fs) = .ok (.map (fs ++ es)) := by
  induction es generalizing fs with
  | nil => rw [List.append_nil, entriesToValue, Value.entriesToNode]
  | cons entry rest ih =>
    obtain ⟨k, child⟩ := entry
    have isName := names k child List.mem_cons_self
    -- the key is not in the map yet, so the write makes a new entry at the end
    have missing := Entries.get?_eq_none_of_nodup distinct
    have way : Writes child (.map fs) [.name k] (.map (fs ++ [(k, child)])) := by
      rw [← Entries.put_of_get?_eq_none missing]
      exact .newEntry missing .here
    have later : Value.entriesToNode place (entriesToValue rest) (.map (fs ++ [(k, child)])) =
        .ok (.map (fs ++ (k, child) :: rest)) := by
      have whole := ih (fs ++ [(k, child)]) (by rwa [List.append_assoc])
        (fun k child mem => names k child (List.mem_cons_of_mem _ mem))
        (fun k child mem => each k child (List.mem_cons_of_mem _ mem))
      rwa [List.append_assoc] at whole
    rw [entriesToValue, Value.entriesToNode_cons_iff]
    exact .inr ⟨isNull_toValue child, [.name k], child, _, Path.parseAbsolute_name isName,
      each k child List.mem_cons_self _, way, later⟩

theorem itemsToNodes_elementsToValue {i : Nat}
    (each : ∀ x ∈ xs, ∀ place, x.toValue.toNode place = .ok x) :
    Value.itemsToNodes place i (elementsToValue xs) = .ok xs := by
  induction xs generalizing i with
  | nil => rfl
  | cons x rest ih =>
    obtain ⟨here, later⟩ := List.forall_mem_cons.mp each
    rw [elementsToValue, Value.itemsToNodes_cons_iff]
    exact .inr ⟨isNull_toValue x, x, rest, here _, ih later, rfl⟩

/-- The value of a tree is built into the tree again. -/
theorem toNode_toValue (wf : n.WellFormed) (resolved : n.Resolved) (place : Path) :
    n.toValue.toNode place = .ok n := by
  induction n using Node.induction generalizing place with
  | leaf s =>
    cases resolved
    rfl
  | map es ih =>
    cases wf with
    | map distinct names children =>
      rw [toValue, Value.toNode]
      exact entriesToNode_entriesToValue [] distinct names
        fun k child mem => ih k child mem (children k child mem) (resolved.entry mem)
  | list xs ih =>
    cases wf with
    | list _ children =>
      rw [toValue, Value.toNode_sequence_iff]
      exact ⟨xs, itemsToNodes_elementsToValue fun x mem => ih x mem (children x mem)
        (resolved.element mem), rfl⟩

end Node

/-! ## The tree of a value -/

namespace Value

variable {v : Value} {place : Path} {es : List (String × Value)} {items : List Value} {n n' : Node}
  {xs : List Node}

/-- A value whose configurations have no expressions in their leaves. -/
inductive Resolved : Value → Prop
  | null : Resolved .null
  | literal (l : Literal) : Resolved (.literal l)
  | sequence {items : List Value} (children : ∀ v ∈ items, Resolved v) : Resolved (.sequence items)
  | mapping {es : List (String × Value)} (children : ∀ k v, (k, v) ∈ es → Resolved v) :
      Resolved (.mapping es)
  | config {d : Document} (leaves : ∀ p s, (p, s) ∈ d.root.leaves .root → s.isExpression = false) :
      Resolved (.config d)

/-- The tree of a value has expressions only where a configuration in the value has them. -/
theorem Resolved.toNode (resolved : v.Resolved) (built : v.toNode place = .ok n) : n.Resolved := by
  induction resolved generalizing place n with
  | null => cases built
  | literal l =>
    cases built
    exact .leaf l
  | config leaves =>
    cases built
    exact (Node.resolved_iff _ .root).mpr fun leaf mem => leaves leaf.1 leaf.2 mem
  | mapping _ ih =>
    rw [Value.toNode] at built
    refine entriesToNode_keeps (P := Node.Resolved) .empty built ?_
    exact fun key v mem path node before after _ made way whole => .writes way whole (ih key v mem made)
  | sequence _ ih =>
    obtain ⟨xs, made, rfl⟩ := toNode_sequence_iff.mp built
    exact .list (itemsToNodes_all (fun v mem place n made => ih v mem made) made).2

/-- A value as trees have them: without nulls and configurations, and with distinct names as the keys of a
mapping. -/
inductive Plain : Value → Prop
  | literal (l : Literal) : Plain (.literal l)
  | sequence {items : List Value} (children : ∀ v ∈ items, Plain v) : Plain (.sequence items)
  | mapping {es : List (String × Value)} (distinct : (Entries.keys es).Nodup)
      (names : ∀ k v, (k, v) ∈ es → Path.IsName k)
      (children : ∀ k v, (k, v) ∈ es → Plain v) : Plain (.mapping es)

/-- The values of an entry each are the values of trees, so the entries are those of a map. -/
theorem exists_entries
    (each : ∀ k v, (k, v) ∈ es → ∃ n, n.toValue = v ∧ ∀ place, v.toNode place = .ok n) :
    ∃ fs, Node.entriesToValue fs = es ∧
      ∀ k child, (k, child) ∈ fs → (k, child.toValue) ∈ es ∧
        ∀ place, child.toValue.toNode place = .ok child := by
  induction es with
  | nil => exact ⟨[], rfl, fun _ _ mem => absurd mem List.not_mem_nil⟩
  | cons entry rest ih =>
    obtain ⟨k, v⟩ := entry
    obtain ⟨child, rfl, made⟩ := each k v List.mem_cons_self
    obtain ⟨fs, rfl, others⟩ := ih fun k v mem => each k v (List.mem_cons_of_mem _ mem)
    refine ⟨(k, child) :: fs, rfl, fun k' child' mem => ?_⟩
    rcases List.mem_cons.mp mem with same | later
    · cases same
      exact ⟨List.mem_cons_self, made⟩
    · obtain ⟨there, made'⟩ := others k' child' later
      exact ⟨List.mem_cons_of_mem _ there, made'⟩

theorem exists_elements
    (each : ∀ v ∈ items, ∃ n, n.toValue = v ∧ ∀ place, v.toNode place = .ok n) :
    ∃ xs, Node.elementsToValue xs = items ∧
      ∀ x ∈ xs, ∀ place, x.toValue.toNode place = .ok x := by
  induction items with
  | nil => exact ⟨[], rfl, List.forall_mem_nil _⟩
  | cons v rest ih =>
    obtain ⟨x, rfl, made⟩ := each v List.mem_cons_self
    obtain ⟨xs, rfl, others⟩ := ih fun v mem => each v (List.mem_cons_of_mem _ mem)
    exact ⟨x :: xs, rfl, List.forall_mem_cons.mpr ⟨made, others⟩⟩

theorem keys_entriesToValue (fs : List (String × Node)) :
    Entries.keys (Node.entriesToValue fs) = Entries.keys fs := by
  induction fs with
  | nil => rfl
  | cons entry rest ih =>
    rw [Node.entriesToValue, Entries.keys, List.map_cons, ← Entries.keys, ih]
    rfl

/-- A plain value has a tree, and is its value. -/
theorem Plain.toNode (plain : v.Plain) : ∃ n, n.toValue = v ∧ ∀ place, v.toNode place = .ok n := by
  induction plain with
  | literal l => exact ⟨.leaf l, rfl, fun _ => rfl⟩
  | sequence _ ih =>
    obtain ⟨xs, rfl, each⟩ := exists_elements ih
    refine ⟨.list xs, rfl, fun place => ?_⟩
    exact toNode_sequence_iff.mpr ⟨xs, Node.itemsToNodes_elementsToValue each, rfl⟩
  | mapping distinct names _ ih =>
    obtain ⟨fs, rfl, each⟩ := exists_entries ih
    rw [keys_entriesToValue] at distinct
    refine ⟨.map fs, rfl, fun place => ?_⟩
    rw [Value.toNode]
    exact Node.entriesToNode_entriesToValue [] distinct
      (fun k child mem => names k _ (each k child mem).1) fun k child mem => (each k child mem).2

end Value

/-! ## The round trip -/

namespace Config

/-- A configuration that is spliced in is built like its value. -/
theorem toNode_asValue {c : Config} (reached : c.Reachable)
    (leaves : ∀ p s, (p, s) ∈ c.root.leaves .root → s.isExpression = false) (place : Path) :
    c.asValue.toNode place = c.toValue.toNode place := by
  have resolved := (Node.resolved_iff _ .root).mpr fun leaf mem => leaves leaf.1 leaf.2 mem
  exact (Node.toNode_toValue reached.sound.wellFormed resolved place).symm

/-- Values and trees stand for each other. The value of the tree of a value is built into that tree, and a
plain value is the value of its tree. So it makes no difference to a write whether a configuration is
spliced in or written as its value. -/
theorem value_tree_round_trip :
    (∀ (v : Value) (place : Path) (n : Node), v.Admissible → v.Resolved → v.toNode place = .ok n →
      ∀ other, n.toValue.toNode other = .ok n) ∧
      (∀ v : Value, v.Plain → ∃ n, n.toValue = v ∧ ∀ place, v.toNode place = .ok n) ∧
      ∀ c : Config, c.Reachable →
        (∀ p s, (p, s) ∈ c.root.leaves .root → s.isExpression = false) →
        (∀ (n : Node) (place path : Path),
          n.putValue place path c.asValue = n.putValue place path c.toValue ∧
            n.fillValue place path c.asValue = n.fillValue place path c.toValue) ∧
        ∀ (d : Config) (path : String),
          d.put path c.asValue = d.put path c.toValue ∧
            d.putIfMissing path c.asValue = d.putIfMissing path c.toValue := by
  refine ⟨?again, fun v plain => plain.toNode, ?spliced⟩
  case again =>
    intro v place n admissible resolved built other
    exact Node.toNode_toValue (admissible.wellFormed.toNode built) (resolved.toNode built) other
  case spliced =>
    intro c reached leaves
    have sameBuild : (fun at_ => c.asValue.toNode at_) = fun at_ => c.toValue.toNode at_ :=
      funext (toNode_asValue reached leaves)
    have sameWrites : ∀ (n : Node) (place path : Path),
        n.putValue place path c.asValue = n.putValue place path c.toValue ∧
          n.fillValue place path c.asValue = n.fillValue place path c.toValue := by
      intro n place path
      rw [Node.putValue, Node.putValue, Node.fillValue, Node.fillValue, sameBuild]
      exact ⟨rfl, rfl⟩
    have notNull : c.toValue.isNull = false := Node.isNull_toValue c.root
    refine ⟨sameWrites, fun d path => ⟨?_, ?_⟩⟩
    · simp only [put, notNull, (sameWrites _ _ _).1, show c.asValue.isNull = false from rfl]
    · simp only [putIfMissing, notNull, (sameWrites _ _ _).2, show c.asValue.isNull = false from rfl]

/-- A dotted key, a null and a configuration that was made before. -/
theorem value_tree_round_trip_nested :
    let host : Node := .map [("host", .leaf (.literal (.string "a")))]
    let inner := Config.empty.withRoot host
    let one : Value := .literal (.integer 1)
    let n : Node := .map [("a", .map [("b", .list [.leaf (.literal (.integer 1))]), ("c", host)])]
    (Value.mapping [("a.b[0]", one), ("x", .null), ("a.c", inner.asValue)]).toNode .root = .ok n ∧
      n.toValue.toNode .root = .ok n ∧
      (∃ m : Node, m.toValue = .mapping [("b", .sequence [one]), ("a", one)]) ∧
      Config.empty.put "a.b" inner.asValue = Config.empty.put "a.b" inner.toValue := by
  intro host inner one n
  obtain ⟨again, plainly, spliced⟩ := value_tree_round_trip
  have first : Config.empty.put "host" (.literal (.string "a")) = .ok inner :=
    bind_eq_ok.mpr ⟨[.name "host"], by cbv, rfl⟩
  have reached : inner.Reachable := .put .empty (.literal _) first
  have leaves : ∀ p s, (p, s) ∈ inner.root.leaves .root → s.isExpression = false := by
    intro p s mem
    cases List.mem_singleton.mp mem
    rfl
  have readB : Path.parseAbsolute "a.b[0]" = .ok [.name "a", .name "b", .index 0] := rfl
  have readC : Path.parseAbsolute "a.c" = .ok [.name "a", .name "c"] := rfl
  have writesB : Writes (.leaf (.literal (.integer 1))) .empty [.name "a", .name "b", .index 0]
      (.map [("a", .map [("b", .list [.leaf (.literal (.integer 1))])])]) :=
    .newEntry rfl (.name (.first .here))
  have writesC : Writes host (.map [("a", .map [("b", .list [.leaf (.literal (.integer 1))])])])
      [.name "a", .name "c"] n :=
    .entry rfl (.newEntry rfl .here)
  have built : (Value.mapping [("a.b[0]", one), ("x", .null), ("a.c", inner.asValue)]).toNode .root =
      .ok n := by
    rw [Value.toNode, Value.entriesToNode_cons_iff]
    refine .inr ⟨rfl, _, _, _, readB, rfl, writesB, ?_⟩
    rw [Value.entriesToNode_cons_iff]
    refine .inl ⟨rfl, ?_⟩
    rw [Value.entriesToNode_cons_iff]
    exact .inr ⟨rfl, _, _, _, readC, rfl, writesC, rfl⟩
  have each : ∀ key v, (key, v) ∈ [("a.b[0]", one), ("x", .null), ("a.c", inner.asValue)] →
      v.Admissible ∧ v.Resolved := by
    intro key v mem
    simp only [List.mem_cons, Prod.mk.injEq, List.not_mem_nil, or_false] at mem
    obtain ⟨-, rfl⟩ | ⟨-, rfl⟩ | ⟨-, rfl⟩ := mem
    · exact ⟨.literal _, .literal _⟩
    · exact ⟨.null, .null⟩
    · exact ⟨.config reached, .config leaves⟩
  have admissible := Value.Admissible.mapping fun key v mem => (each key v mem).1
  have resolved := Value.Resolved.mapping fun key v mem => (each key v mem).2
  have plain : Value.Plain (.mapping [("b", .sequence [one]), ("a", one)]) := by
    refine .mapping (by simp [Entries.keys]) (fun key v mem => ?_) fun key v mem => ?_
    · simp only [List.mem_cons, Prod.mk.injEq, List.not_mem_nil, or_false] at mem
      obtain ⟨rfl, -⟩ | ⟨rfl, -⟩ := mem <;> decide
    · simp only [List.mem_cons, Prod.mk.injEq, List.not_mem_nil, or_false] at mem
      obtain ⟨-, rfl⟩ | ⟨-, rfl⟩ := mem
      · exact .sequence (List.forall_mem_singleton.mpr (.literal _))
      · exact .literal _
  obtain ⟨m, same, -⟩ := plainly _ plain
  exact ⟨built, again _ _ _ admissible resolved built .root, ⟨m, same⟩,
    ((spliced inner reached leaves).2 .empty "a.b").1⟩

end Config

end LayeredConfig
