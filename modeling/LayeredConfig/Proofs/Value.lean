import LayeredConfig.Proofs.Node.Write
import LayeredConfig.Config

/-!
# Values as trees

A mapping is written entry by entry into an empty tree, so everything about the tree of a value comes
from the laws of writes.

1. `toNode_place`: the tree of a value does not depend on the place for which it is built.
2. `putValue_frame`: writing a value and reading back, with what becomes of everything else.
3. `WellFormed.toNode`, `DistinctKeys.toNode`: well-formed values have well-formed trees, and the keys of their
  maps are distinct if those of spliced configurations are.
-/

namespace LayeredConfig

open Node (Writes)

namespace Value

/-- Induction over a value, from the items and the entries to the value. -/
@[elab_as_elim]
theorem induction {motive : Value → Prop} (null : motive .null) (literal : ∀ l, motive (.literal l))
    (sequence : ∀ items, (∀ v ∈ items, motive v) → motive (.sequence items))
    (mapping : ∀ es, (∀ k v, (k, v) ∈ es → motive v) → motive (.mapping es))
    (config : ∀ d, motive (.config d)) : ∀ v, motive v
  | .null => null
  | .literal l => literal l
  | .sequence items =>
    sequence items fun v _mem => induction null literal sequence mapping config v
  | .mapping es => mapping es fun _ v _mem => induction null literal sequence mapping config v
  | .config d => config d
termination_by v => sizeOf v
decreasing_by
  · have smaller := List.sizeOf_lt_of_mem _mem
    simp only [Value.sequence.sizeOf_spec]
    omega
  · have smaller := List.sizeOf_lt_of_mem _mem
    simp only [Prod.mk.sizeOf_spec, Value.mapping.sizeOf_spec] at smaller ⊢
    omega

/-! ## Entry by entry, item by item -/

section Steps

variable {place : Path} {v : Value} {es : List (String × Value)} {items : List Value}
  {n n' : Node} {xs : List Node} {key : String} {i : Nat}

/-- A null among the entries is left out, and any other value is written. -/
theorem entriesToNode_cons_iff :
    entriesToNode place ((key, v) :: es) n = .ok n' ↔
      v.isNull = true ∧ entriesToNode place es n = .ok n' ∨
      v.isNull = false ∧ ∃ path node between, Path.parseAbsolute key = .ok path ∧
        v.toNode (place ++ path) = .ok node ∧ Writes node n path between ∧
        entriesToNode place es between = .ok n' := by
  rw [entriesToNode]
  cases v.isNull with
  | true => simp
  | false =>
    simp only [Bool.false_eq_true, reduceIte, bind_eq_ok, Node.put_eq_ok_iff]
    grind

/-- A null among the items is left out, and any other value becomes an element. -/
theorem itemsToNodes_cons_iff :
    itemsToNodes place i (v :: items) = .ok xs ↔
      v.isNull = true ∧ itemsToNodes place i items = .ok xs ∨
      v.isNull = false ∧ ∃ node rest, v.toNode (place.index i) = .ok node ∧
        itemsToNodes place (i + 1) items = .ok rest ∧ xs = node :: rest := by
  rw [itemsToNodes]
  cases v.isNull with
  | true => simp
  | false =>
    simp only [Bool.false_eq_true, reduceIte, bind_eq_ok, pure_eq_ok]
    grind

theorem toNode_sequence_iff :
    (Value.sequence items).toNode place = .ok n ↔
      ∃ xs, itemsToNodes place 0 items = .ok xs ∧ .list xs = n := by
  rw [toNode]
  simp only [bind_eq_ok, pure_eq_ok]

/-- What the write of each entry keeps, the tree of a mapping has. -/
theorem entriesToNode_keeps {P : Node → Prop} (start : P n)
    (built : entriesToNode place es n = .ok n')
    (keeps : ∀ key v, (key, v) ∈ es → ∀ path node before after, Path.parseAbsolute key = .ok path →
      v.toNode (place ++ path) = .ok node → Writes node before path after → P before → P after) :
    P n' := by
  induction es generalizing n with
  | nil =>
    cases built
    exact start
  | cons entry rest ih =>
    obtain ⟨key, v⟩ := entry
    have later := fun key v mem => keeps key v (List.mem_cons_of_mem _ mem)
    rcases entriesToNode_cons_iff.mp built with
      ⟨-, more⟩ | ⟨-, path, node, between, read, made, way, more⟩
    · exact ih start more later
    · exact ih (keeps key v List.mem_cons_self path node n between read made way start) more later

/-- What holds of the tree of each item holds of the elements, and there are no more of these. -/
theorem itemsToNodes_all {P : Node → Prop}
    (each : ∀ v ∈ items, ∀ place n, v.toNode place = .ok n → P n)
    (built : itemsToNodes place i items = .ok xs) : xs.length ≤ items.length ∧ ∀ x ∈ xs, P x := by
  induction items generalizing i xs with
  | nil =>
    cases built
    exact ⟨Nat.le_refl 0, List.forall_mem_nil _⟩
  | cons v rest ih =>
    have later := fun v mem => each v (List.mem_cons_of_mem _ mem)
    rcases itemsToNodes_cons_iff.mp built with ⟨-, more⟩ | ⟨-, node, nodes, made, more, rfl⟩
    · obtain ⟨short, all⟩ := ih later more
      exact ⟨Nat.le_succ_of_le short, all⟩
    · obtain ⟨short, all⟩ := ih later more
      exact ⟨Nat.succ_le_succ short,
        List.forall_mem_cons.mpr ⟨each v List.mem_cons_self _ node made, all⟩⟩

end Steps

/-! ## The place of a value -/

section Place

variable {place other : Path} {v : Value} {es : List (String × Value)} {items : List Value}
  {n n' : Node} {xs : List Node}

theorem entriesToNode_place
    (each : ∀ k v, (k, v) ∈ es → ∀ a b n, v.toNode a = .ok n → v.toNode b = .ok n)
    (built : entriesToNode place es n = .ok n') : entriesToNode other es n = .ok n' := by
  induction es generalizing n with
  | nil => exact built
  | cons entry rest ih =>
    obtain ⟨key, v⟩ := entry
    have later : ∀ n, entriesToNode place rest n = .ok n' → entriesToNode other rest n = .ok n' :=
      fun n => ih fun k v mem => each k v (List.mem_cons_of_mem _ mem)
    rw [entriesToNode_cons_iff] at built ⊢
    rcases built with ⟨null, more⟩ | ⟨value, path, node, between, read, made, way, more⟩
    · exact .inl ⟨null, later n more⟩
    · exact .inr ⟨value, path, node, between, read,
        each key v List.mem_cons_self _ _ node made, way, later between more⟩

theorem itemsToNodes_place {i j : Nat}
    (each : ∀ v ∈ items, ∀ a b n, v.toNode a = .ok n → v.toNode b = .ok n)
    (built : itemsToNodes place i items = .ok xs) : itemsToNodes other j items = .ok xs := by
  induction items generalizing i j xs with
  | nil => exact built
  | cons v rest ih =>
    have later : ∀ i j xs, itemsToNodes place i rest = .ok xs → itemsToNodes other j rest = .ok xs :=
      fun i j xs => ih fun v mem => each v (List.mem_cons_of_mem _ mem)
    rw [itemsToNodes_cons_iff] at built ⊢
    rcases built with ⟨null, more⟩ | ⟨value, node, nodes, made, more, rfl⟩
    · exact .inl ⟨null, later i j xs more⟩
    · exact .inr ⟨value, node, nodes, each v List.mem_cons_self _ _ node made,
        later _ _ nodes more, rfl⟩

/-- The place of a value matters for errors only: wherever its tree can be built, it is the same. -/
theorem toNode_place (built : v.toNode place = .ok n) (other : Path) : v.toNode other = .ok n := by
  induction v using Value.induction generalizing place other n with
  | null => cases built
  | literal l => exact built
  | config d => exact built
  | mapping es ih =>
    rw [toNode] at built ⊢
    exact entriesToNode_place (fun k v mem a b n made => ih k v mem made b) built
  | sequence items ih =>
    rw [toNode_sequence_iff] at built ⊢
    obtain ⟨xs, made, rfl⟩ := built
    exact ⟨xs, itemsToNodes_place (fun v mem a b n made => ih v mem made b) made, rfl⟩

end Place

end Value

/-! ## Writing a value -/

namespace Node

/-- Writing and reading back, with everything else of the tree. Suppose that `value` is written at
`path`. Then its tree is found there, and at a path that leads neither to nor from `path`

* nothing is found if it goes through a node that had to be dropped,
* and what was there is found if it does not.

Maps on the way keep their keys in order, with a new key at the end; lists on the way keep their
other elements and grow by one at most, at the end. -/
theorem putValue_frame {n n' : Node} {place path : Path} {value : Value}
    (written : n.putValue place path value = .ok n') :
    (∃ node, (∀ at_, value.toNode at_ = .ok node) ∧ n'.get? path = some node) ∧
    (∀ q : Path, ¬ q <+: path → ¬ path <+: q →
      (∀ start, n.BlockedAt path start → start <+: q → n'.get? q = none) ∧
      ((∀ start, n.BlockedAt path start → ¬ start <+: q) → n'.get? q = n.get? q)) ∧
    (∀ start k rest es, path = start ++ .name k :: rest → n.get? start = some (.map es) →
      ∃ fs, n'.get? start = some (.map fs) ∧
        Entries.keys fs =
          if k ∈ Entries.keys es then Entries.keys es else Entries.keys es ++ [k]) ∧
    (∀ start i rest xs, path = start ++ .index i :: rest → n.get? start = some (.list xs) →
      i ≤ xs.length ∧ ∃ ys, n'.get? start = some (.list ys) ∧ ys.length = max xs.length (i + 1) ∧
        ∀ j ≠ i, ys[j]? = xs[j]?) := by
  obtain ⟨node, built, way⟩ := put_eq_ok_iff.mp written
  refine ⟨⟨node, Value.toNode_place built, way.get?_self⟩, fun q above below => ⟨?_, ?_⟩, ?_, ?_⟩
  · exact fun start blocked through => way.get?_dropped blocked through above below
  · exact fun kept => way.get?_kept kept above below
  · rintro start k rest es rfl leads
    exact way.keys leads
  · rintro start i rest xs rfl leads
    exact way.elements leads

/-- Writing a port under a name where a list of ports is drops the list, and nothing else. -/
theorem putValue_frame_ports :
    let host : Node := .leaf (.literal (.string "localhost"))
    let port : Node := .leaf (.literal (.integer 80))
    let n : Node := .map [("ports", .list [port]), ("host", host)]
    ∃ n', n.putValue .root [.name "ports", .name "http"] (.literal (.integer 80)) = .ok n' ∧
      n'.get? [.name "ports", .name "http"] = some port ∧
      n.get? [.name "ports", .index 0] = some port ∧
      n'.get? [.name "ports", .index 0] = none ∧
      n'.get? [.name "host"] = some host := by
  intro host port n
  have written : n.putValue .root [.name "ports", .name "http"] (.literal (.integer 80)) =
      .ok (.map [("ports", .map [("http", port)]), ("host", host)]) := rfl
  obtain ⟨⟨node, built, self⟩, others, -⟩ := putValue_frame written
  refine ⟨_, written, ?_⟩
  have blocked : n.BlockedAt [.name "ports", .name "http"] [.name "ports"] :=
    ⟨.name "http", [], .list [port], rfl, rfl, rfl⟩
  -- the tree of the value is known, since it does not depend on the place
  cases built .root
  refine ⟨self, rfl, ?_, ?_⟩
  · exact (others _ (by decide) (by decide)).1 _ blocked (by decide)
  · refine (others _ (by decide) (by decide)).2 fun start blocked' => ?_
    rw [← blocked.unique blocked']
    decide

end Node

/-! ## Well-formed values -/

namespace Value

/-- A value whose lists have positions within the limit, and whose configurations are well-formed
maps. -/
inductive WellFormed : Value → Prop
  | null : WellFormed .null
  | literal (l : Literal) : WellFormed (.literal l)
  | sequence {items : List Value} (fits : items.length ≤ Path.indexLimit)
      (children : ∀ v ∈ items, WellFormed v) : WellFormed (.sequence items)
  | mapping {es : List (String × Value)} (children : ∀ k v, (k, v) ∈ es → WellFormed v) :
      WellFormed (.mapping es)
  | config {d : Document} (isMap : d.root.isMap) (root : d.root.WellFormed) : WellFormed (.config d)

section WellFormed

variable {place : Path} {v : Value} {es : List (String × Value)} {items : List Value}
  {n n' : Node} {xs : List Node}

/-- Keys of mappings are paths that start with a name. -/
theorem entriesToNode_wellFormed
    (each : ∀ k v, (k, v) ∈ es → ∀ place n, v.toNode place = .ok n → n.WellFormed)
    (isMap : n.isMap) (whole : n.WellFormed) (built : entriesToNode place es n = .ok n') :
    n'.isMap ∧ n'.WellFormed := by
  refine entriesToNode_keeps (P := fun n => n.isMap ∧ n.WellFormed) ⟨isMap, whole⟩ built ?_
  rintro key v mem path node before after read made way ⟨isMap, whole⟩
  obtain ⟨parsed, name, steps, rfl⟩ := Path.parse_of_parseAbsolute read
  exact ⟨way.isMap isMap,
    way.wellFormed (Path.readable_of_parse parsed) whole (each key v mem _ node made)⟩

/-- A well-formed value has a well-formed tree. -/
theorem WellFormed.toNode (wf : v.WellFormed) (built : v.toNode place = .ok n) : n.WellFormed := by
  induction wf generalizing place n with
  | null => cases built
  | literal l =>
    cases built
    exact .leaf l
  | config _ root =>
    cases built
    exact root
  | mapping _ ih =>
    rw [Value.toNode] at built
    exact (entriesToNode_wellFormed (fun k v mem place n made => ih k v mem made) rfl .empty built).2
  | sequence fits _ ih =>
    obtain ⟨xs, made, rfl⟩ := toNode_sequence_iff.mp built
    obtain ⟨short, whole⟩ := itemsToNodes_all (fun v mem place n made => ih v mem made) made
    exact .list (Nat.le_trans short fits) whole

/-- The tree of a well-formed document is a well-formed map. -/
theorem WellFormed.toRoot (wf : v.WellFormed) (built : v.toRoot = .ok n) :
    n.isMap ∧ n.WellFormed := by
  cases wf with
  | null =>
    cases built
    exact ⟨rfl, .empty⟩
  | literal l => cases built
  | sequence _ _ => cases built
  | config isMap root =>
    cases built
    exact ⟨isMap, root⟩
  | mapping children =>
    rw [Value.toRoot, Value.toNode] at built
    exact entriesToNode_wellFormed (fun k v mem place n made => (children k v mem).toNode made)
      rfl .empty built

end WellFormed

/-! ## Distinct keys -/

/-- A value whose configurations have maps with distinct keys, as all maps have. What else it holds does not
matter, since a mapping is written key by key. -/
inductive DistinctKeys : Value → Prop
  | null : DistinctKeys .null
  | literal (l : Literal) : DistinctKeys (.literal l)
  | sequence {items : List Value} (children : ∀ v ∈ items, DistinctKeys v) :
      DistinctKeys (.sequence items)
  | mapping {es : List (String × Value)} (children : ∀ k v, (k, v) ∈ es → DistinctKeys v) :
      DistinctKeys (.mapping es)
  | config {d : Document} (root : d.root.DistinctKeys) : DistinctKeys (.config d)

section DistinctKeys

variable {place : Path} {v : Value} {n : Node}

/-- Its tree has distinct keys. -/
theorem DistinctKeys.toNode (keys : v.DistinctKeys) (built : v.toNode place = .ok n) :
    n.DistinctKeys := by
  induction keys generalizing place n with
  | null => cases built
  | literal l =>
    cases built
    exact .leaf l
  | config root =>
    cases built
    exact root
  | mapping _ ih =>
    rw [Value.toNode] at built
    refine entriesToNode_keeps (P := Node.DistinctKeys) .empty built ?_
    intro key v mem path node before after _ made way whole
    exact way.distinctKeys whole (ih key v mem made)
  | sequence _ ih =>
    obtain ⟨xs, made, rfl⟩ := toNode_sequence_iff.mp built
    obtain ⟨-, each⟩ := itemsToNodes_all (fun v mem place n made => ih v mem made) made
    exact .list each

theorem DistinctKeys.toRoot (keys : v.DistinctKeys) (built : v.toRoot = .ok n) : n.DistinctKeys := by
  cases keys with
  | null =>
    cases built
    exact .empty
  | literal l => cases built
  | sequence _ => cases built
  | config root =>
    cases built
    exact root
  | mapping children => exact (DistinctKeys.mapping children).toNode built

end DistinctKeys

end Value

end LayeredConfig
