import LayeredConfig.CommandLine
import LayeredConfig.Proofs.Config.Noninterference
import LayeredConfig.Proofs.Config.Reachable
import LayeredConfig.Proofs.Node.Congruence
import LayeredConfig.Proofs.Resolution.Lookup
import LayeredConfig.Proofs.Resolution.Preparation

/-!
# The order of map entries

Maps keep their entries in order, but no outcome depends on it (`map_order_irrelevant`). For the operations
on trees alone that is shown in `LayeredConfig.Proofs.Node.Congruence`. Here come values that are written,
redaction, resolution, and the lists of leaves that users see.

The entries of a value that is written are another matter. Their keys are paths, so of `a.b` and `a` the
later one decides what becomes of the earlier one.
-/

namespace LayeredConfig

/-! ## Values -/

namespace Value

mutual

/-- The values are the same, except that configurations in them may have equal trees. -/
inductive Equal : Value → Value → Prop
  | null : Equal .null .null
  | literal (l : Literal) : Equal (.literal l) (.literal l)
  | sequence {items items' : List Value} :
      EqualItems items items' → Equal (.sequence items) (.sequence items')
  | mapping {es fs : List (String × Value)} : EqualEntries es fs → Equal (.mapping es) (.mapping fs)
  | config {d e : Document} : d.root.Equal e.root → Equal (.config d) (.config e)

/-- The items are the same one by one. -/
inductive EqualItems : List Value → List Value → Prop
  | nil : EqualItems [] []
  | cons {v w : Value} {items items' : List Value} :
      Equal v w → EqualItems items items' → EqualItems (v :: items) (w :: items')

/-- The entries are the same one by one, in the same order. -/
inductive EqualEntries : List (String × Value) → List (String × Value) → Prop
  | nil : EqualEntries [] []
  | cons {key : String} {v w : Value} {es fs : List (String × Value)} :
      Equal v w → EqualEntries es fs → EqualEntries ((key, v) :: es) ((key, w) :: fs)

end

theorem Equal.isNull {v w : Value} (same : v.Equal w) : v.isNull = w.isNull := by
  cases same <;> rfl

mutual

/-- Such values have equal trees, or none for the same kind of reason. -/
theorem Equal.toNode : ∀ {v w : Value}, v.Equal w → ∀ place,
    SameOutcome Error.SameKind Node.Equal (v.toNode place) (w.toNode place)
  | _, _, .null, place => by
    rw [Value.toNode]
    exact .error rfl
  | _, _, .literal l, place => by
    rw [Value.toNode]
    exact .ok (Node.equal_leaf l)
  | _, _, .config same, place => by
    rw [Value.toNode, Value.toNode]
    exact .ok same
  | _, _, .mapping entries, place => by
    rw [Value.toNode, Value.toNode]
    exact entries.toNode place Node.equal_empty
  | _, _, .sequence items, place => by
    rw [Value.toNode, Value.toNode]
    exact (items.toNodes place 0).bind_pure fun _ _ elements => Node.equal_list_iff.mpr elements

theorem EqualItems.toNodes : ∀ {items items' : List Value}, EqualItems items items' → ∀ place i,
    SameOutcome Error.SameKind (List.Forall₂ Node.Equal) (itemsToNodes place i items)
      (itemsToNodes place i items')
  | _, _, .nil, place, i => by
    rw [itemsToNodes]
    exact .ok .nil
  | _, _, @EqualItems.cons _ w _ _ here rest, place, i => by
    rw [itemsToNodes, itemsToNodes, here.isNull]
    cases w.isNull with
    | true => exact rest.toNodes place i
    | false =>
      refine (here.toNode (place.index i)).bind fun _ _ first => ?_
      exact (rest.toNodes place (i + 1)).bind_pure fun _ _ later => .cons first later

theorem EqualEntries.toNode : ∀ {es fs : List (String × Value)}, EqualEntries es fs →
    ∀ place {n n' : Node}, n.Equal n' →
      SameOutcome Error.SameKind Node.Equal (entriesToNode place es n) (entriesToNode place fs n')
  | _, _, .nil, place, _, _, same => by
    rw [entriesToNode, entriesToNode]
    exact .ok same
  | _, _, @EqualEntries.cons key _ w _ _ here rest, place, _, _, same => by
    rw [entriesToNode, entriesToNode, here.isNull]
    cases w.isNull with
    | true => exact rest.toNode place same
    | false =>
      cases Path.parseAbsolute key with
      | error e => exact .error rfl
      | ok path =>
        have written := same.write here.toNode place path
        exact written.bind fun _ _ between => rest.toNode place between

end

end Value

/-! ## Redaction -/

theorem Node.Equal.redact {n n' : Node} (same : n.Equal n') (r : Redactor) :
    (r.redact n).Equal (r.redact n') :=
  same.mapped (fun _ _ _ _ left right => left.trans right.symm) (r.redact_mapped n) (r.redact_mapped n')

/-! ## Resolution -/

namespace Resolution

variable {scope scope' : Node}

theorem leafAt?_eq_of_equal (same : scope.Equal scope') (reference : String) :
    leafAt? scope reference = leafAt? scope' reference := by
  refine Option.ext fun s => ?_
  rw [leafAt?_eq_some_iff, leafAt?_eq_some_iff]
  simp only [same.leaf]

/-- References have the same values in scopes with the same leaves. -/
theorem lookup_eq_of_equal (same : scope.Equal scope') (chain : Chain) (reference : String) :
    lookup scope chain reference = lookup scope' chain reference := by
  have leaves := leafAt?_eq_of_equal same
  induction chain, reference using lookup_induction scope with
  | none chain reference found =>
    rw [lookup_of_none found, lookup_of_none ((leaves reference).symm.trans found)]
  | literal chain reference v found =>
    rw [lookup_of_literal found, lookup_of_literal ((leaves reference).symm.trans found)]
  | cycle chain reference e found closes =>
    rw [lookup_of_cycle found closes, lookup_of_cycle ((leaves reference).symm.trans found) closes]
  | enter chain reference e found free ih =>
    rw [lookup_of_expression found free,
      lookup_of_expression ((leaves reference).symm.trans found) free, resolve, resolve, funext ih]

theorem resolveScalar_eq_of_equal (same : scope.Equal scope') (s : Scalar) :
    resolveScalar scope s = resolveScalar scope' s := by
  cases s with
  | literal v => rfl
  | expression e =>
    rw [resolveScalar, resolveScalar, resolve, resolve, funext (lookup_eq_of_equal same _)]

end Resolution

open Resolution in
theorem Node.Equal.resolveTree {n n' values values' : Node} (same : n.Equal n')
    (same' : values.Equal values') (policy : UnresolvedPolicy) :
    SameOutcome Error.SameKind Node.Equal (resolveTree n values policy)
      (resolveTree n' values' policy) := by
  have unreadable : ∀ q s q' s' e e', parseLeaf q s = .error e → parseLeaf q' s' = .error e' →
      e.SameKind e' := fun _ _ _ _ _ _ first second =>
    (kind_of_parseLeaf_error first).trans (kind_of_parseLeaf_error second).symm
  rw [LayeredConfig.resolveTree, LayeredConfig.resolveTree]
  refine (same.mapLeaves unreadable .root).bind fun parsed parsed' read => ?_
  refine ((same'.withDefaults read).mapLeaves unreadable .root).bind fun scope scope' made => ?_
  rw [funext (resolveScalar_eq_of_equal made)]
  refine read.mapLeaves (fun _ _ _ _ _ _ first second => ?_) .root
  exact (kind_of_settle_error first).trans (kind_of_settle_error second).symm

/-! ## Configurations -/

namespace Config

variable {c d : Config}

/-- The configurations have equal trees and the same rule for secrets. -/
structure Equal (c d : Config) : Prop where
  sound : c.Sound
  sound' : d.Sound
  root : c.root.Equal d.root
  redactor : c.redactor = d.redactor

/-- The leaves of equal trees come into the same order when they are sorted by their texts, since no two of
them have the same text. -/
theorem entries_eq_of_equal (sound : c.Sound) (same : c.root.Equal d.root) : c.entries = d.entries := by
  have leaves := c.entries_perm.trans (same.leaves_perm.trans d.entries_perm.symm)
  refine List.Perm.eq_of_pairwise (fun x y here there above below => ?_) c.pairwise_entries
    d.pairwise_entries leaves
  have mem := c.entries_perm.mem_iff.mp here
  have mem' := c.entries_perm.mem_iff.mp (leaves.mem_iff.mpr there)
  exact List.inj_on_of_nodup_map sound.nodup_texts mem mem' (le_antisymm above below)

theorem Equal.hideSecrets (same : c.Equal d) : c.hideSecrets.Equal d.hideSecrets := by
  have redacted := same.root.redact c.redactor
  rw [same.redactor] at redacted
  have left : c.hideSecrets.root = d.redactor.redact c.root := congrArg (·.redact c.root) same.redactor
  exact ⟨same.sound.hideSecrets, same.sound'.hideSecrets, left ▸ redacted, same.redactor⟩

theorem Equal.resolve {values values' : Config} (same : c.Equal d)
    (same' : values.root.Equal values'.root) (policy : UnresolvedPolicy) :
    SameOutcome Error.SameKind Equal (c.resolve values policy) (d.resolve values' policy) := by
  have trees : SameOutcome Error.SameKind (fun c' d' : Config => c'.root.Equal d'.root ∧
      c'.redactor = c.redactor ∧ d'.redactor = d.redactor) (c.resolve values policy)
      (d.resolve values' policy) :=
    (same.root.resolveTree same' policy).bind_pure fun _ _ below => ⟨below, rfl, rfl⟩
  refine trees.imp fun c' d' made made' ⟨root, kept, kept'⟩ => ?_
  exact ⟨same.sound.resolve made, same.sound'.resolve made', root,
    kept.trans (same.redactor.trans kept'.symm)⟩

end Config

/-! ## Commands -/

namespace CommandLine

variable {fs fs' : FileSystem} {files files' : List String} {c d : Config}

theorem resolved_equal (same : c.Equal d) (policy? : Option UnresolvedPolicy) :
    SameOutcome Error.SameKind Config.Equal (resolved c policy?) (resolved d policy?) := by
  cases policy? with
  | none => exact .ok same
  | some policy => exact same.resolve Node.equal_empty policy

theorem renderFlat_eq_of_equal (same : c.Equal d) :
    renderFlat c.hideSecrets = renderFlat d.hideSecrets := by
  have hidden := same.hideSecrets
  rw [renderFlat, renderFlat, Config.entries_eq_of_equal hidden.sound hidden.root]

/-- Files with equal configurations give the same flat output. Where expressions cannot be read, another
one may come first, so that the message is about another path. -/
theorem run_flat_of_equal (same : c.Equal d) (loaded : loadFiles fs files = .ok c)
    (loaded' : loadFiles fs' files' = .ok d) (resolve : Bool) :
    let first := (Command.flat files resolve).run fs
    let second := (Command.flat files' resolve).run fs'
    first.code = second.code ∧ first.stdout = second.stdout := by
  have both := resolved_equal same (if resolve then some .unwrap else none)
  rw [Command.run, Command.run, withConfig, withConfig, loaded, loaded']
  dsimp only
  generalize resolved c _ = result, resolved d _ = result' at both ⊢
  cases both with
  | ok same' =>
    dsimp only
    rw [renderFlat_eq_of_equal same']
    exact ⟨rfl, rfl⟩
  | error _ => exact ⟨rfl, rfl⟩

end CommandLine

/-! ## The order does not matter -/

open CommandLine in
/-- Nothing depends on the order of map entries. For equal trees, writes, removals, layers, functions of
leaves and their paths, redaction and resolution make equal trees, or leave nothing of both, or fail on
both. Writes and resolution fail for the same kind of reason. Reachable configurations with equal trees have
the same list of entries and the same flat map, and so do files with such configurations give the same flat
output. -/
theorem map_order_irrelevant {n n' other other' : Node} (same : n.Equal n')
    (same' : other.Equal other') :
    (∀ (v w : Value) (place path : Path), v.Equal w →
      SameOutcome Error.SameKind Node.Equal (n.putValue place path v) (n'.putValue place path w) ∧
      SameOutcome Error.SameKind Node.Equal (n.fillValue place path v) (n'.fillValue place path w)) ∧
    (∀ (path : Path) (o : Pruning), Option.Rel Node.Equal (n.remove path o) (n'.remove path o)) ∧
    (n.withDefaults other).Equal (n'.withDefaults other') ∧
    (other.withDefaults n).Equal (other'.withDefaults n') ∧
    (∀ (ε : Type) (f : Path → Scalar → Except ε Scalar) (place : Path),
      SameOutcome (fun _ _ => True) Node.Equal (n.mapLeaves f place) (n'.mapLeaves f place)) ∧
    (∀ (keep : Path → Scalar → Bool) (place : Path) (o : Pruning),
      Option.Rel Node.Equal (Id.run (n.filterLeaves (fun q s => pure (keep q s)) place o))
        (Id.run (n'.filterLeaves (fun q s => pure (keep q s)) place o))) ∧
    (∀ r : Redactor, (r.redact n).Equal (r.redact n')) ∧
    (∀ policy : UnresolvedPolicy, SameOutcome Error.SameKind Node.Equal (resolveTree n other policy)
      (resolveTree n' other' policy)) ∧
    ∀ c d : Config, c.Reachable → d.Reachable → c.root = n → d.root = n' →
      c.entries = d.entries ∧ c.flat = d.flat ∧
      ∀ (fs fs' : FileSystem) (files files' : List String) (resolve : Bool),
        loadFiles fs files = .ok c → loadFiles fs' files' = .ok d →
          ((Command.flat files resolve).run fs).code = ((Command.flat files' resolve).run fs').code ∧
          ((Command.flat files resolve).run fs).stdout =
            ((Command.flat files' resolve).run fs').stdout := by
  refine ⟨fun v w place path values => ⟨?_, ?_⟩, same.remove, same.withDefaults same',
    same'.withDefaults same, fun ε f => same.mapLeaves fun _ _ _ _ _ _ _ _ => trivial,
    same.filterLeaves, same.redact, same.resolveTree same', ?_⟩
  · exact same.write values.toNode place path
  · exact same.fill values.toNode place path
  · rintro c d reached reached' rfl rfl
    have entries := Config.entries_eq_of_equal reached.sound same
    refine ⟨entries, ?_, fun fs fs' files files' resolve loaded loaded' => ?_⟩
    · rw [reached.sound.flat_eq, reached'.sound.flat_eq, entries]
    · have redactors := (redactor_of_loadFiles loaded).trans (redactor_of_loadFiles loaded').symm
      exact run_flat_of_equal ⟨reached.sound, reached'.sound, same, redactors⟩ loaded loaded' resolve

open CommandLine in
/-- Two files with the same values in another order. -/
theorem map_order_irrelevant_files :
    let a : Literal := .bool true
    let b : Literal := .string "${a}"
    let one : Node := .map [("b", .leaf b), ("a", .leaf a)]
    let two : Node := .map [("a", .leaf a), ("b", .leaf b)]
    let fs (text : String) : FileSystem := ⟨fun _ => .ok text, fun _ => .ok .file⟩
    let first := fs "\x7b\"b\":\"$\x7ba\x7d\",\"a\":true\x7d"
    let second := fs "\x7b\"a\":true,\"b\":\"$\x7ba\x7d\"\x7d"
    let flat : Command := .flat ["c.json"] true
    one.Equal two ∧ loadFiles first ["c.json"] = .ok (Config.empty.withRoot one) ∧
      loadFiles second ["c.json"] = .ok (Config.empty.withRoot two) ∧
      (Config.empty.withRoot one).entries = (Config.empty.withRoot two).entries ∧
      (flat.run first).stdout = (flat.run second).stdout := by
  intro a b one two fs first second flat
  have made : Config.ofValue (.mapping [("b", b), ("a", a)]) = .ok (Config.empty.withRoot one) := by
    cbv
  have made' : Config.ofValue (.mapping [("a", a), ("b", b)]) = .ok (Config.empty.withRoot two) := by
    cbv
  have literals (es : List (String × Literal)) :
      Value.Admissible (.mapping (es.map fun e => (e.1, .literal e.2))) := by
    refine .mapping fun key v mem => ?_
    obtain ⟨⟨k, l⟩, -, same⟩ := List.mem_map.mp mem
    cases same
    exact .literal l
  have reached : (Config.empty.withRoot one).Reachable := .ofValue (literals [("b", b), ("a", a)]) made
  have reached' : (Config.empty.withRoot two).Reachable :=
    .ofValue (literals [("a", a), ("b", b)]) made'
  have same : one.Equal two :=
    ⟨reached.sound.wellFormed.distinctKeys, reached'.sound.wellFormed.distinctKeys, by decide⟩
  have loaded : loadFiles first ["c.json"] = .ok (Config.empty.withRoot one) := by cbv
  have loaded' : loadFiles second ["c.json"] = .ok (Config.empty.withRoot two) := by cbv
  obtain ⟨-, -, -, -, -, -, -, -, views⟩ := map_order_irrelevant same Node.equal_empty
  obtain ⟨entries, -, runs⟩ := views _ _ reached reached' rfl rfl
  exact ⟨same, loaded, loaded', entries, (runs _ _ _ _ true loaded loaded').2⟩

end LayeredConfig
