import LayeredConfig.Config.Edit
import LayeredConfig.Proofs.Config.Flattening
import LayeredConfig.Proofs.Node.NamedWrites
import LayeredConfig.Proofs.Value.Writing

/-!
# Writes as layers, and writes in any order

A value that is written at a path by names makes the same tree as a layer with this one entry that is merged
(`write_is_layer`). And writes at paths by names of which none leads through another (`Independent`) may be done in
any order: all of them succeed, with equal trees, or one of the values has no tree and every order fails
(`writes_commute`). So the order of the entries of such a mapping does not matter, nor that of such pairs.

Both come from the normal form of writes along names, in `LayeredConfig.Proofs.Node.NamedWrites`.
-/

namespace LayeredConfig

/-! ## Paths by names -/

namespace Path

variable {p q : Path}

theorem map_names (names : ∀ step ∈ p, step.isName) : p.names.map .name = p := by
  induction p with
  | nil => rfl
  | cons step rest ih =>
    obtain ⟨here, later⟩ := List.forall_mem_cons.mp names
    cases step with
    | name k => exact congrArg (Step.name k :: ·) (ih later)
    | index i => cases here

/-- Neither path leads through the other one. -/
def Apart (p q : Path) : Prop :=
  ¬ p <+: q ∧ ¬ q <+: p

instance (p q : Path) : Decidable (p.Apart q) :=
  inferInstanceAs (Decidable (¬ p <+: q ∧ ¬ q <+: p))

theorem Apart.symm (apart : p.Apart q) : q.Apart p :=
  ⟨apart.2, apart.1⟩

theorem prefix_of_names (namesP : ∀ step ∈ p, step.isName) (namesQ : ∀ step ∈ q, step.isName)
    (before : p.names <+: q.names) : p <+: q := by
  have mapped := before.map Step.name
  rwa [map_names namesP, map_names namesQ] at mapped

/-- The paths consist of names, and none of them leads through another one. -/
structure Independent (paths : List Path) : Prop where
  names : ∀ p ∈ paths, ∀ step ∈ p, step.isName
  apart : paths.Pairwise Apart

namespace Independent

variable {paths paths' : List Path}

theorem perm (independent : Independent paths) (perm : paths.Perm paths') : Independent paths' where
  names p mem := independent.names p (perm.mem_iff.mpr mem)
  apart := (perm.pairwise_iff Apart.symm).mp independent.apart

theorem sublist (independent : Independent paths) (sub : List.Sublist paths' paths) :
    Independent paths' where
  names p mem := independent.names p (sub.subset mem)
  apart := independent.apart.sublist sub

theorem tail (independent : Independent (p :: paths)) : Independent paths :=
  independent.sublist (List.sublist_cons_self p paths)

end Independent

end Path

/-! ## One write -/

theorem Value.isNull_of_toNode {v : Value} {place : Path} {node : Node} (built : v.toNode place = .ok node) :
    v.isNull = false := by
  cases v with
  | null => cases built
  | _ => rfl

namespace Node

variable {p : Path} {v : Value} {node : Node}

theorem putValue_names (names : ∀ step ∈ p, step.isName) (n : Node) (place : Path) (v : Value) :
    n.putValue place p v = n.graft p.names <$> v.toNode (place ++ p) := by
  have written := n.put_names (fun at_ => v.toNode at_) place p.names
  rwa [Path.map_names names] at written

theorem putValue_built (built : v.toNode .root = .ok node) (n : Node) (place : Path)
    (names : List String) : n.putValue place (names.map .name) v = .ok (n.graft names node) := by
  rw [putValue, put_names, Value.toNode_place built]
  rfl

end Node

namespace Config

variable {names : List String} {v : Value} {node : Node}

theorem readable_names (valid : ∀ k ∈ names, Path.IsName k) : Path.Readable (names.map .name) := by
  intro step mem
  obtain ⟨k, here, rfl⟩ := List.mem_map.mp mem
  exact valid k here

theorem parseAbsolute_names (some : names ≠ []) (valid : ∀ k ∈ names, Path.IsName k) :
    Path.parseAbsolute (Path.text (names.map .name)) = .ok (names.map .name) := by
  have readable := readable_names valid
  cases names with
  | nil => exact absurd rfl some
  | cons k rest => exact Path.parseAbsolute_text readable

section Names

variable (some : names ≠ []) (valid : ∀ k ∈ names, Path.IsName k) (built : v.toNode .root = .ok node)
include some valid built

theorem toRoot_singleton :
    (Value.mapping [(Path.text (names.map .name), v)]).toRoot = .ok (Node.layer names node) := by
  have written : Node.empty.putValue .root (names.map .name) v = .ok (Node.layer names node) :=
    Node.putValue_built built .empty .root names
  rw [Value.toRoot, Value.toNode, Value.entriesToNode, Value.isNull_of_toNode built]
  exact bind_eq_ok.mpr ⟨_, parseAbsolute_names some valid, bind_eq_ok.mpr ⟨_, written, rfl⟩⟩

theorem put_names (c : Config) :
    c.put (Path.text (names.map .name)) v = .ok (c.withRoot (c.root.graft names node)) := by
  have written := Node.putValue_built built c.root .root names
  refine bind_eq_ok.mpr ⟨_, parseAbsolute_names some valid, ?_⟩
  rw [Value.isNull_of_toNode built]
  exact bind_eq_ok.mpr ⟨_, written, rfl⟩

theorem putIfMissing_names (c : Config) :
    c.putIfMissing (Path.text (names.map .name)) v =
      .ok (c.withRoot (if c.root.masks (names.map .name) then c.root else c.root.graft names node)) := by
  have filled : c.root.fillValue .root (names.map .name) v =
      .ok (if c.root.masks (names.map .name) then c.root else c.root.graft names node) := by
    rw [Node.fillValue, Node.fill_names]
    split
    · rfl
    · exact Node.putValue_built built c.root .root names
  refine bind_eq_ok.mpr ⟨_, parseAbsolute_names some valid, ?_⟩
  rw [Value.isNull_of_toNode built]
  exact bind_eq_ok.mpr ⟨_, filled, rfl⟩

end Names

/-- Writing a value at a path by names gives the tree that merging the mapping with this one entry gives, up to the
order of keys. Where only gaps are filled it is the very same tree. The value may be anything that has a tree other
than a map, and the tree may have leaves, lists or maps along the path, or nothing. -/
theorem write_is_layer {c : Config} (keys : c.root.DistinctKeys) (some : names ≠ [])
    (valid : ∀ k ∈ names, Path.IsName k) (built : v.toNode .root = .ok node) (noMap : node.isMap = false)
    (keys' : v.DistinctKeys) :
    let path := Path.text (names.map .name)
    (∃ m m', c.put path v = .ok (c.withRoot m) ∧
      c.putAll (.mapping [(path, v)]) = .ok (c.withRoot m') ∧ m.Equal m') ∧
    ∃ m, c.putIfMissing path v = .ok (c.withRoot m) ∧
      c.putAllIfMissing (.mapping [(path, v)]) = .ok (c.withRoot m) := by
  have layer := toRoot_singleton some valid built
  have inFront := Node.equal_layer_withDefaults keys (keys'.toNode built) noMap names
  have behind := Node.withDefaults_layer keys noMap names
  constructor
  · refine ⟨_, _, put_names some valid built c, ?_, inFront.symm⟩
    rw [putAll, layer]
    rfl
  · refine ⟨_, putIfMissing_names some valid built c, ?_⟩
    rw [putAllIfMissing, layer, ← behind]
    rfl

/-- Below a list. A write drops it, be it done at once or by a layer. Where only gaps are filled the list stays. -/
theorem write_is_layer_blocked :
    let one : Node := .leaf (.literal (.integer 1))
    let c := empty.withRoot (.map [("a", one), ("l", .list [one])])
    let v : Value := .sequence [.null, .literal (.integer 1)]
    let new : Node := .map [("x", .list [one])]
    c.put "l.x" v = .ok (c.withRoot (.map [("a", one), ("l", new)])) ∧
      c.putAll (.mapping [("l.x", v)]) = .ok (c.withRoot (.map [("l", new), ("a", one)])) ∧
      (Node.map [("a", one), ("l", new)]).Equal (.map [("l", new), ("a", one)]) ∧
      c.putIfMissing "l.x" v = .ok c ∧ c.putAllIfMissing (.mapping [("l.x", v)]) = .ok c := by
  intro one c v new
  have keys : c.root.DistinctKeys := by
    have list : (Node.list [one]).DistinctKeys := .list (List.forall_mem_singleton.mpr (.leaf _))
    exact (Node.DistinctKeys.empty.put (.leaf _) "a").put list "l"
  have keys' : v.DistinctKeys := by
    refine .sequence (List.forall_mem_cons.mpr ⟨.null, List.forall_mem_singleton.mpr (.literal _)⟩)
  have valid : ∀ k ∈ ["l", "x"], Path.IsName k := by decide
  obtain ⟨⟨m, m', put_, all, same⟩, m'', fill, fillAll⟩ :=
    write_is_layer keys (by decide) valid rfl rfl keys'
  cases put_
  cases all
  cases fill
  exact ⟨rfl, rfl, same, rfl, fillAll⟩

end Config

/-! ## Many writes -/

namespace Node

variable {n n' : Node} {p q : Path} {v w : Value} {writes writes' : List (Path × Value)}

/-- Writes values at paths, one after the other. -/
def putValues (n : Node) (place : Path) (writes : List (Path × Value)) : Result Node :=
  writes.foldlM (fun n (path, value) => n.putValue place path value) n

theorem putValues_cons (n : Node) (place : Path) (write : Path × Value) (rest : List (Path × Value)) :
    n.putValues place (write :: rest) =
      n.putValue place write.1 write.2 >>= fun m => m.putValues place rest := by
  unfold putValues
  rw [List.foldlM_cons]

/-- Along names, writes fail only for a value that has no tree. -/
theorem putValues_succeeds_iff (names : ∀ write ∈ writes, ∀ step ∈ write.1, step.isName) (n : Node)
    (place : Path) :
    (∃ m, n.putValues place writes = .ok m) ↔ ∀ write ∈ writes, write.2.Buildable := by
  induction writes generalizing n with
  | nil => exact iff_of_true ⟨n, rfl⟩ (List.forall_mem_nil _)
  | cons write rest ih =>
    obtain ⟨here, later⟩ := List.forall_mem_cons.mp names
    rw [List.forall_mem_cons, putValues_cons, putValue_names here]
    constructor
    · rintro ⟨m, written⟩
      obtain ⟨between, first, more⟩ := bind_eq_ok.mp written
      obtain ⟨node, built, rfl⟩ := map_eq_ok.mp first
      exact ⟨⟨node, Value.toNode_place built .root⟩, (ih later _).mp ⟨m, more⟩⟩
    · rintro ⟨⟨node, built⟩, others⟩
      obtain ⟨m, more⟩ := (ih later (n.graft write.1.names node)).mpr others
      have there := Value.toNode_place built (place ++ write.1)
      exact ⟨m, bind_eq_ok.mpr ⟨_, map_eq_ok.mpr ⟨node, there, rfl⟩, more⟩⟩

theorem Equal.putValue (same : n.Equal n') (keys : v.DistinctKeys) (place p : Path) :
    SameOutcome (fun _ _ => True) Equal (n.putValue place p v) (n'.putValue place p v) := by
  refine (same.write (fun at_ => ?_) place p).weaken fun _ _ _ => trivial
  cases made : v.toNode at_ with
  | error e => exact .error rfl
  | ok node => exact .ok (.refl (keys.toNode made))

theorem Equal.putValues (same : n.Equal n') (keys : ∀ write ∈ writes, write.2.DistinctKeys)
    (place : Path) :
    SameOutcome (fun _ _ => True) Equal (n.putValues place writes) (n'.putValues place writes) := by
  induction writes generalizing n n' with
  | nil => exact .ok same
  | cons write rest ih =>
    obtain ⟨here, later⟩ := List.forall_mem_cons.mp keys
    rw [putValues_cons, putValues_cons]
    exact (same.putValue here place write.1).bind fun _ _ below => ih below later

/-- Two writes may change places. -/
theorem putValue_comm (keys : n.DistinctKeys) (keysV : v.DistinctKeys) (keysW : w.DistinctKeys)
    (namesP : ∀ step ∈ p, step.isName) (namesQ : ∀ step ∈ q, step.isName) (apart : p.Apart q)
    (place : Path) :
    SameOutcome (fun _ _ => True) Equal (n.putValue place p v >>= fun m => m.putValue place q w)
      (n.putValue place q w >>= fun m => m.putValue place p v) := by
  simp only [putValue_names namesP, putValue_names namesQ]
  cases first : v.toNode (place ++ p) with
  | error e => cases second : w.toNode (place ++ q) <;> exact .error trivial
  | ok x =>
    cases second : w.toNode (place ++ q) with
    | error e => exact .error trivial
    | ok y =>
      refine .ok (equal_graft_comm keys (keysV.toNode first) (keysW.toNode second) ?_ ?_)
      · exact fun before => apart.1 (Path.prefix_of_names namesP namesQ before)
      · exact fun before => apart.2 (Path.prefix_of_names namesQ namesP before)

/-- Independent writes may be done in any order. -/
theorem Equal.putValues_perm (same : n.Equal n') (keys : ∀ write ∈ writes, write.2.DistinctKeys)
    (independent : Path.Independent (writes.map Prod.fst)) (perm : writes.Perm writes') (place : Path) :
    SameOutcome (fun _ _ => True) Equal (n.putValues place writes) (n'.putValues place writes') := by
  induction perm generalizing n n' with
  | nil => exact .ok same
  | cons write _ ih =>
    obtain ⟨here, later⟩ := List.forall_mem_cons.mp keys
    rw [putValues_cons, putValues_cons]
    exact (same.putValue here place write.1).bind fun _ _ below => ih below later independent.tail
  | swap first second rest =>
    obtain ⟨keysS, others⟩ := List.forall_mem_cons.mp keys
    obtain ⟨keysF, later⟩ := List.forall_mem_cons.mp others
    have names := independent.names
    have apart : second.1.Apart first.1 := List.rel_of_pairwise_cons independent.apart List.mem_cons_self
    have swapped := putValue_comm same.keys keysS keysF (names _ List.mem_cons_self)
      (names _ (List.mem_cons_of_mem _ List.mem_cons_self)) apart place
    have both := (same.putValue keysF place first.1).bind fun _ _ below =>
      below.putValue keysS place second.1
    simp only [putValues_cons, ← bind_assoc]
    exact (swapped.trans both fun _ _ _ => Equal.trans).bind fun _ _ below => below.putValues later place
  | trans one _ ih ih' =>
    have before := ih (.refl same.keys) keys independent
    have after := ih' same (fun write mem => keys write (one.mem_iff.mpr mem))
      (independent.perm (one.map Prod.fst))
    exact before.trans after fun _ _ _ => Equal.trans

end Node

/-! ## The entries of a mapping -/

namespace Value

variable {es : List (String × Value)} {key : String} {v : Value} {path : Path} {paths : List Path}

/-- The write that an entry of a mapping stands for. There is none for a null or a key that is no path. -/
def write? (entry : String × Value) : Option (Path × Value) :=
  if entry.2.isNull then none else (Path.parseAbsolute entry.1).toOption.map (·, entry.2)

theorem write?_eq_some_iff {write : Path × Value} :
    write? (key, v) = some write ↔
      v.isNull = false ∧ Path.parseAbsolute key = .ok write.1 ∧ v = write.2 := by
  unfold write?
  cases v.isNull with
  | true => simp
  | false => cases Path.parseAbsolute key <;> simp [Except.toOption, Prod.ext_iff]

/-- The writes that the entries of a mapping stand for, in their order. -/
def writes (es : List (String × Value)) : List (Path × Value) :=
  es.filterMap write?

theorem writes_null (null : v.isNull = true) (es : List (String × Value)) :
    writes ((key, v) :: es) = writes es :=
  List.filterMap_cons_none (if_pos null)

theorem writes_cons (value : v.isNull = false) (read : Path.parseAbsolute key = .ok path)
    (es : List (String × Value)) :
    writes ((key, v) :: es) = (path, v) :: writes es :=
  List.filterMap_cons_some (write?_eq_some_iff.mpr ⟨value, read, rfl⟩)

theorem read_keys_cons (read : (Entries.keys ((key, v) :: es)).mapM Path.parseAbsolute = .ok paths) :
    ∃ path others, Path.parseAbsolute key = .ok path ∧
      (Entries.keys es).mapM Path.parseAbsolute = .ok others ∧ paths = path :: others := by
  obtain ⟨path, others, here, later, rfl⟩ := List.forall₂_cons_left_iff.mp (mapM_eq_ok_iff.mp read)
  exact ⟨path, others, here, mapM_eq_ok_iff.mpr later, rfl⟩

theorem entriesToNode_eq_putValues (read : (Entries.keys es).mapM Path.parseAbsolute = .ok paths)
    (place : Path) (n : Node) :
    entriesToNode place es n = n.putValues place (writes es) := by
  induction es generalizing paths n with
  | nil => rfl
  | cons entry rest ih =>
    obtain ⟨key, v⟩ := entry
    obtain ⟨path, others, here, later, rfl⟩ := read_keys_cons read
    have below := ih later
    rw [entriesToNode]
    cases value : v.isNull with
    | true =>
      rw [writes_null value]
      exact below n
    | false =>
      rw [writes_cons value here, Node.putValues_cons, here]
      exact bind_congr below

/-- The paths of the writes are among those that the keys are read as. -/
theorem paths_writes_sublist (read : (Entries.keys es).mapM Path.parseAbsolute = .ok paths) :
    ((writes es).map Prod.fst).Sublist paths := by
  induction es generalizing paths with
  | nil => exact List.nil_sublist paths
  | cons entry rest ih =>
    obtain ⟨key, v⟩ := entry
    obtain ⟨path, others, here, later, rfl⟩ := read_keys_cons read
    have below := ih later
    cases value : v.isNull with
    | true =>
      rw [writes_null value]
      exact below.cons path
    | false =>
      rw [writes_cons value here]
      exact below.cons_cons path

theorem keys_of_mem_writes (keys : (mapping es).DistinctKeys) :
    ∀ write ∈ writes es, write.2.DistinctKeys := by
  intro write mem
  obtain ⟨⟨key, v⟩, here, made⟩ := List.mem_filterMap.mp mem
  obtain ⟨-, -, rfl⟩ := write?_eq_some_iff.mp made
  cases keys with
  | mapping children => exact children key _ here

end Value

namespace Config

variable {es : List (String × Value)} {paths : List Path}

theorem foldlM_put_eq_putValues (read : (Entries.keys es).mapM Path.parseAbsolute = .ok paths)
    (c : Config) :
    es.foldlM (fun c (path, value) => c.put path value) c =
      c.withRoot <$> c.root.putValues .root (Value.writes es) := by
  induction es generalizing paths c with
  | nil => rfl
  | cons entry rest ih =>
    obtain ⟨key, v⟩ := entry
    obtain ⟨path, others, here, later, rfl⟩ := Value.read_keys_cons read
    have below := ih later
    rw [List.foldlM_cons]
    dsimp only
    rw [put, here]
    cases value : v.isNull with
    | true =>
      rw [Value.writes_null value]
      exact below c
    | false =>
      rw [Value.writes_cons value here, Node.putValues_cons, map_bind]
      change (c.root.putValue .root path v >>= fun n => pure (c.withRoot n)) >>= _ = _
      rw [bind_assoc]
      refine bind_congr fun n => ?_
      exact below (c.withRoot n)

end Config

/-! ## The order does not matter -/

/-- Independent writes make equal trees in any order, or each order fails. They fail exactly if one of the values
has no tree. So for keys that are read as independent paths, the order of the entries of a mapping makes no
difference but to the order of the keys of its tree, nor does that of the pairs of a configuration. -/
theorem writes_commute {n : Node} {writes writes' : List (Path × Value)} (keys : n.DistinctKeys)
    (keys' : ∀ write ∈ writes, write.2.DistinctKeys) (independent : Path.Independent (writes.map Prod.fst))
    (perm : writes.Perm writes') (place : Path) :
    ((∀ write ∈ writes, write.2.Buildable) →
      ∃ m m', n.putValues place writes = .ok m ∧ n.putValues place writes' = .ok m' ∧ m.Equal m') ∧
    ((∃ write ∈ writes, ¬ write.2.Buildable) →
      ∃ e e', n.putValues place writes = .error e ∧ n.putValues place writes' = .error e') ∧
    ∀ (es fs : List (String × Value)) (paths : List Path), es.Perm fs →
      (Entries.keys es).mapM Path.parseAbsolute = .ok paths → Path.Independent paths →
      (Value.mapping es).DistinctKeys →
        SameOutcome (fun _ _ => True) Node.Equal ((Value.mapping es).toNode place)
          ((Value.mapping fs).toNode place) ∧
        SameOutcome (fun _ _ => True) (fun c d => c.root.Equal d.root ∧ d = c.withRoot d.root)
          (Config.ofPairs es) (Config.ofPairs fs) := by
  have names : ∀ write ∈ writes, ∀ step ∈ write.1, step.isName := fun write mem =>
    independent.names _ (List.mem_map_of_mem mem)
  have succeeds := Node.putValues_succeeds_iff names n place
  have both := (Node.Equal.refl keys).putValues_perm keys' independent perm place
  refine ⟨fun buildable => ?_, fun ⟨write, mem, unbuildable⟩ => ?_, ?_⟩
  · generalize n.putValues place writes = first, n.putValues place writes' = second at succeeds both ⊢
    cases both with
    | ok same => exact ⟨_, _, rfl, rfl, same⟩
    | error _ => cases succeeds.mpr buildable with | intro m made => cases made
  · generalize n.putValues place writes = first, n.putValues place writes' = second at succeeds both ⊢
    cases both with
    | ok same => exact absurd (succeeds.mp ⟨_, rfl⟩ write mem) unbuildable
    | error _ => exact ⟨_, _, rfl, rfl⟩
  · intro es fs paths perm read independent keys
    obtain ⟨paths', read', -⟩ := List.perm_comp_forall₂ (perm.symm.map Prod.fst) (mapM_eq_ok_iff.mp read)
    have read' := mapM_eq_ok_iff.mpr read'
    have both (place : Path) := Node.equal_empty.putValues_perm (Value.keys_of_mem_writes keys)
      (independent.sublist (Value.paths_writes_sublist read)) (perm.filterMap Value.write?) place
    constructor
    · rw [Value.toNode, Value.toNode, Value.entriesToNode_eq_putValues read,
        Value.entriesToNode_eq_putValues read']
      exact both place
    · rw [Config.ofPairs, Config.ofPairs, Config.foldlM_put_eq_putValues read,
        Config.foldlM_put_eq_putValues read']
      exact (both .root).bind_pure fun m m' same => ⟨same, rfl⟩

/-- Of two writes below a list, the first one drops it in either order. A null has no tree, but as a value of a
mapping it is left out. -/
theorem writes_commute_shared :
    let one : Literal := .integer 1
    let n : Node := .map [("a", .list [.leaf one])]
    let x : Path × Value := ([.name "a", .name "x"], one)
    let y : Path × Value := ([.name "a", .name "y"], .sequence [])
    let null : Path × Value := ([.name "b"], .null)
    let m : Node := .map [("a", .map [("x", .leaf one), ("y", .list [])])]
    let m' : Node := .map [("a", .map [("y", .list []), ("x", .leaf one)])]
    let es : List (String × Value) := [("a.x", one), ("b", .null), ("a.y", one)]
    let fs : List (String × Value) := [("b", .null), ("a.y", one), ("a.x", one)]
    n.putValues .root [x, y] = .ok m ∧ n.putValues .root [y, x] = .ok m' ∧ m.Equal m' ∧
      (∃ e e', n.putValues .root [x, null] = .error e ∧ n.putValues .root [null, x] = .error e') ∧
      SameOutcome (fun _ _ => True) (fun c d => c.root.Equal d.root ∧ d = c.withRoot d.root)
        (Config.ofPairs es) (Config.ofPairs fs) := by
  intro one n x y null m m' es fs
  have keys : n.DistinctKeys :=
    Node.DistinctKeys.empty.put (.list (List.forall_mem_singleton.mpr (.leaf _))) "a"
  have keysX : x.2.DistinctKeys := .literal one
  have keysY : y.2.DistinctKeys := .sequence (List.forall_mem_nil _)
  have swap (w : Path × Value) : List.Perm [x, w] [w, x] := .swap w x []
  have both {w : Path × Value} (keysW : w.2.DistinctKeys) : ∀ write ∈ [x, w], write.2.DistinctKeys :=
    List.forall_mem_cons.mpr ⟨keysX, List.forall_mem_singleton.mpr keysW⟩
  obtain ⟨made, -, entries⟩ :=
    writes_commute keys (both keysY) ⟨by decide, by decide⟩ (swap y) .root
  obtain ⟨-, failed, -⟩ := writes_commute keys (both .null) ⟨by decide, by decide⟩ (swap null) .root
  obtain ⟨_, _, first, second, same⟩ := made
    (List.forall_mem_cons.mpr ⟨⟨_, rfl⟩, List.forall_mem_singleton.mpr ⟨_, rfl⟩⟩)
  cases first
  cases second
  have readX : Path.parseAbsolute "a.x" = .ok x.1 := rfl
  have readY : Path.parseAbsolute "a.y" = .ok y.1 := rfl
  have read : (Entries.keys es).mapM Path.parseAbsolute = .ok [x.1, null.1, y.1] :=
    mapM_eq_ok_iff.mpr (.cons readX (.cons rfl (.cons readY .nil)))
  have perm : es.Perm fs := .trans (.swap _ _ _) (.cons _ (.swap _ _ _))
  have keys' : (Value.mapping es).DistinctKeys := by
    refine .mapping fun k v mem => ?_
    simp only [es, List.mem_cons, Prod.mk.injEq, List.not_mem_nil, or_false] at mem
    rcases mem with ⟨-, rfl⟩ | ⟨-, rfl⟩ | ⟨-, rfl⟩
    · exact .literal one
    · exact .null
    · exact .literal one
  refine ⟨rfl, rfl, same, failed ⟨null, by simp, ?_⟩, ?_⟩
  · rintro ⟨_, built⟩
    cases built
  · exact (entries es fs _ perm read ⟨by decide, by decide⟩ keys').2

end LayeredConfig
