import LayeredConfig.Audit
import LayeredConfig.Proofs.Node.Leaves
import LayeredConfig.Proofs.Node.Merge
import LayeredConfig.Proofs.Node.Prune
import LayeredConfig.Proofs.Value
import Mathlib

/-!
# What holds of every configuration

Every configuration comes from the empty one, or from a value, by a finite number of operations, and
values may have other such configurations spliced in. `Reachable` and `Admissible` say that together.

The invariant is `Sound`: the root is a map, and the tree is well formed. Each operation has a lemma that
it keeps the invariant, and `Reachable.sound` puts them together. `reachable_leaves` is what users get
from it: each leaf is found under the text of its path, and no leaf hides another one.
-/

namespace LayeredConfig

namespace Config

/-- The root is a map. Keys of maps are distinct names, and lists have positions within the limit. -/
structure Sound (c : Config) : Prop where
  isMap : c.root.isMap
  wellFormed : c.root.WellFormed

end Config

/-! ## Configurations that can be made -/

mutual

/-- A configuration that a finite number of operations leads to. Functions over leaves may have a state
of any type, and the functions that replace leaves may fail. -/
inductive Config.Reachable : Config → Prop
  | empty : Config.Reachable .empty
  | ofValue {v : Value} {c : Config} :
      Value.Admissible v → Config.ofValue v = .ok c → Config.Reachable c
  | ofPairs {pairs : List (String × Value)} {c : Config} :
      (∀ path v, (path, v) ∈ pairs → Value.Admissible v) → Config.ofPairs pairs = .ok c →
      Config.Reachable c
  | put {c c' : Config} {path : String} {v : Value} :
      Config.Reachable c → Value.Admissible v → c.put path v = .ok c' → Config.Reachable c'
  | putIfMissing {c c' : Config} {path : String} {v : Value} :
      Config.Reachable c → Value.Admissible v → c.putIfMissing path v = .ok c' →
      Config.Reachable c'
  | putAll {c c' : Config} {v : Value} :
      Config.Reachable c → Value.Admissible v → c.putAll v = .ok c' → Config.Reachable c'
  | putAllIfMissing {c c' : Config} {v : Value} :
      Config.Reachable c → Value.Admissible v → c.putAllIfMissing v = .ok c' → Config.Reachable c'
  | remove {c c' : Config} {path : String} {o : Pruning} :
      Config.Reachable c → c.remove path o = .ok c' → Config.Reachable c'
  | mapValues {σ : Type} {c c' : Config} {f : Path → Scalar → StateT σ Result Scalar} {s s' : σ} :
      Config.Reachable c → (c.mapValues f).run s = .ok (c', s') → Config.Reachable c'
  | filterValues {σ : Type} {c : Config} (keep : Path → Scalar → StateM σ Bool) (o : Pruning)
      (s : σ) : Config.Reachable c → Config.Reachable ((c.filterValues keep o).run s).1
  | removeEmpty {c : Config} : Config.Reachable c → Config.Reachable c.removeEmpty
  | resolve {c c' values : Config} {policy : UnresolvedPolicy} :
      Config.Reachable c → Config.Reachable values → c.resolve values policy = .ok c' →
      Config.Reachable c'
  | withDefaults {c d : Config} :
      Config.Reachable c → Config.Reachable d → Config.Reachable (c.withDefaults d)
  | withValues {c d : Config} :
      Config.Reachable c → Config.Reachable d → Config.Reachable (c.withValues d)
  | hideSecrets {c : Config} : Config.Reachable c → Config.Reachable c.hideSecrets
  | getConfig? {c part : Config} {path : String} :
      Config.Reachable c → c.getConfig? path = .ok (some part) → Config.Reachable part
  | getConfig {c part : Config} {path : String} :
      Config.Reachable c → c.getConfig path = .ok part → Config.Reachable part
  | getConfigOrEmpty {c part : Config} {path : String} :
      Config.Reachable c → c.getConfigOrEmpty path = .ok part → Config.Reachable part
  | unused {a : Audit} : Config.Reachable a.config → Config.Reachable a.unused
  | addParser {c : Config} (parser : ValueParser) :
      Config.Reachable c → Config.Reachable (c.addParser parser)
  | setParsers {c : Config} (parsers : Registry) :
      Config.Reachable c → Config.Reachable (c.setParsers parsers)
  | setRedactor {c : Config} (redactor : Redactor) :
      Config.Reachable c → Config.Reachable (c.setRedactor redactor)

/-- A value that can be written: what is spliced in is reachable, and a list has no more items than there
are positions, as is the case for every list in memory. The keys of mappings are arbitrary texts. -/
inductive Value.Admissible : Value → Prop
  | null : Value.Admissible .null
  | literal (l : Literal) : Value.Admissible (.literal l)
  | sequence {items : List Value} : items.length ≤ Path.indexLimit →
      (∀ v ∈ items, Value.Admissible v) → Value.Admissible (.sequence items)
  | mapping {es : List (String × Value)} :
      (∀ key v, (key, v) ∈ es → Value.Admissible v) → Value.Admissible (.mapping es)
  | config {c : Config} : Config.Reachable c → Value.Admissible c.asValue

end

/-! ## Every operation keeps the invariant -/

namespace Config

section Operations

variable {c c' d : Config} {v : Value} {path : String}

theorem sound_empty : Sound .empty :=
  ⟨rfl, .empty⟩

/-- All that an operation on the tree has to keep. -/
theorem Sound.withRoot {root : Node} (isMap : root.isMap) (wf : root.WellFormed) (c : Config) :
    (c.withRoot root).Sound :=
  ⟨isMap, wf⟩

theorem Sound.ofValue (wf : v.WellFormed) (made : ofValue v = .ok c) : c.Sound := by
  obtain ⟨root, built, same⟩ := bind_eq_ok.mp made
  cases pure_eq_ok.mp same
  obtain ⟨isMap, whole⟩ := wf.toRoot built
  exact .withRoot isMap whole _

/-- A write of a well-formed value at a path that starts with a name keeps the invariant. -/
theorem Sound.written (sound : c.Sound) (wf : v.WellFormed) {p place : Path} {node root : Node}
    (read : Path.parseAbsolute path = .ok p) (built : v.toNode place = .ok node)
    (way : Node.Writes node c.root p root) : (c.withRoot root).Sound := by
  obtain ⟨parsed, name, rest, rfl⟩ := Path.parse_of_parseAbsolute read
  have readable := Path.readable_of_parse parsed
  exact .withRoot (way.isMap sound.isMap)
    (way.wellFormed readable sound.wellFormed (wf.toNode built)) c

theorem Sound.put (sound : c.Sound) (wf : v.WellFormed) (made : c.put path v = .ok c') :
    c'.Sound := by
  obtain ⟨p, read, made⟩ := bind_eq_ok.mp made
  split at made
  · cases pure_eq_ok.mp made
    exact sound
  · obtain ⟨root, written, same⟩ := bind_eq_ok.mp made
    cases pure_eq_ok.mp same
    obtain ⟨node, built, way⟩ := Node.put_eq_ok_iff.mp written
    exact sound.written wf read built way

theorem Sound.putIfMissing (sound : c.Sound) (wf : v.WellFormed)
    (made : c.putIfMissing path v = .ok c') : c'.Sound := by
  obtain ⟨p, read, made⟩ := bind_eq_ok.mp made
  split at made
  · cases pure_eq_ok.mp made
    exact sound
  · obtain ⟨root, filled, same⟩ := bind_eq_ok.mp made
    cases pure_eq_ok.mp same
    obtain ⟨root?, changed, same⟩ := bind_eq_ok.mp filled
    cases pure_eq_ok.mp same
    cases root? with
    | none => exact sound
    | some root =>
      obtain ⟨node, built, way⟩ := Node.fill?_eq_some changed
      exact sound.written wf read built way

theorem Sound.putPairs {pairs : List (String × Value)} (sound : c.Sound)
    (each : ∀ path v, (path, v) ∈ pairs → v.WellFormed)
    (made : pairs.foldlM (fun c (path, v) => c.put path v) c = .ok c') : c'.Sound := by
  induction pairs generalizing c with
  | nil =>
    cases pure_eq_ok.mp made
    exact sound
  | cons pair rest ih =>
    obtain ⟨path, v⟩ := pair
    rw [List.foldlM_cons] at made
    obtain ⟨between, here, later⟩ := bind_eq_ok.mp made
    exact ih (sound.put (each path v List.mem_cons_self) here)
      (fun path v mem => each path v (List.mem_cons_of_mem _ mem)) later

theorem Sound.merged {n other : Node} (isMap : n.isMap) (wf : n.WellFormed)
    (wf' : other.WellFormed) (c : Config) : (c.withRoot (n.withDefaults other)).Sound :=
  .withRoot ((Node.isMap_withDefaults n other).trans isMap) (wf.withDefaults wf') c

theorem Sound.withDefaults (sound : c.Sound) (sound' : d.Sound) : (c.withDefaults d).Sound :=
  .merged sound.isMap sound.wellFormed sound'.wellFormed c

theorem Sound.withValues (sound : c.Sound) (sound' : d.Sound) : (c.withValues d).Sound :=
  .merged sound'.isMap sound'.wellFormed sound.wellFormed c

theorem Sound.putAll (sound : c.Sound) (wf : v.WellFormed) (made : c.putAll v = .ok c') :
    c'.Sound := by
  obtain ⟨root, built, same⟩ := bind_eq_ok.mp made
  cases pure_eq_ok.mp same
  obtain ⟨isMap, whole⟩ := wf.toRoot built
  exact .merged isMap whole sound.wellFormed c

theorem Sound.putAllIfMissing (sound : c.Sound) (wf : v.WellFormed)
    (made : c.putAllIfMissing v = .ok c') : c'.Sound := by
  obtain ⟨root, built, same⟩ := bind_eq_ok.mp made
  cases pure_eq_ok.mp same
  obtain ⟨-, whole⟩ := wf.toRoot built
  exact .merged sound.isMap sound.wellFormed whole c

/-- If the root itself is taken away, the empty map is left. -/
theorem Sound.left (sound : c.Sound) {left : Option Node}
    (some : ∀ n, left = some n → n.isMap = c.root.isMap ∧ n.WellFormed) :
    (c.withRoot (left.getD .empty)).Sound := by
  cases left with
  | none => exact .withRoot rfl .empty c
  | some n =>
    obtain ⟨isMap, wf⟩ := some n rfl
    exact .withRoot (isMap.trans sound.isMap) wf c

theorem Sound.remove (sound : c.Sound) {o : Pruning} (made : c.remove path o = .ok c') :
    c'.Sound := by
  obtain ⟨p, -, same⟩ := bind_eq_ok.mp made
  cases pure_eq_ok.mp same
  exact sound.left fun n left => sound.wellFormed.remove left

/-- Trees with other leaves are as good. -/
theorem Sound.mapped (sound : c.Sound) {R : Path → Scalar → Scalar → Prop} {p : Path} {root : Node}
    (mapped : Node.Mapped R p c.root root) : (c.withRoot root).Sound :=
  .withRoot (mapped.isMap.trans sound.isMap) (mapped.wellFormed sound.wellFormed) c

section Effects

universe u

variable {m : Type → Type u} [Monad m] [LawfulMonad m]

theorem Sound.mapValues (sound : c.Sound) (f : Path → Scalar → m Scalar) :
    Always Sound (c.mapValues f) := by
  have shape := Node.mapLeaves_mapped (R := fun _ _ _ => True) (f := f)
    (fun p s => Always.of_forall (fun _ => trivial) (f p s)) .root c.root
  exact shape.bind fun root mapped => .pure (sound.mapped mapped)

theorem Sound.filterValues (sound : c.Sound) (keep : Path → Scalar → m Bool) (o : Pruning) :
    Always Sound (c.filterValues keep o) :=
  (Node.filterLeaves_sound keep .root o sound.wellFormed).bind
    fun _ some => .pure (sound.left some)

end Effects

theorem Sound.removeEmpty (sound : c.Sound) : c.removeEmpty.Sound :=
  (sound.filterValues (m := Id) (fun _ _ => pure true) .both).of_run

theorem Sound.unused {a : Audit} (sound : a.config.Sound) : a.unused.Sound :=
  (sound.filterValues (m := Id) (fun p _ => pure !a.isRead p) .both).of_run

theorem Sound.hideSecrets (sound : c.Sound) : c.hideSecrets.Sound :=
  (sound.mapValues (m := Id) fun p s => pure (c.redactor.redactLeaf p s)).of_run

theorem Sound.resolve {values : Config} {policy : UnresolvedPolicy} (sound : c.Sound)
    (made : c.resolve values policy = .ok c') : c'.Sound := by
  obtain ⟨root, resolved, same⟩ := bind_eq_ok.mp made
  cases pure_eq_ok.mp same
  obtain ⟨parsed, read, resolved⟩ := bind_eq_ok.mp resolved
  obtain ⟨scope, -, settled⟩ := bind_eq_ok.mp resolved
  -- the scope only has a say in which values the leaves get
  have sound' := sound.mapped (Node.mapped_of_mapLeaves_ok read)
  exact sound'.mapped (Node.mapped_of_mapLeaves_ok settled)

theorem Sound.getConfig? {part : Config} (sound : c.Sound)
    (found : c.getConfig? path = .ok (some part)) : part.Sound := by
  obtain ⟨place, looked, taken⟩ := bind_eq_ok.mp found
  obtain ⟨p, -, same⟩ := bind_eq_ok.mp looked
  cases pure_eq_ok.mp same
  split at taken
  · next es there =>
    cases pure_eq_ok.mp taken
    obtain ⟨n, leads, same⟩ := Option.map_eq_some_iff.mp there
    cases same
    exact .withRoot rfl (sound.wellFormed.get? leads).2 c
  · cases pure_eq_ok.mp taken

theorem Sound.getConfig {part : Config} (sound : c.Sound) (found : c.getConfig path = .ok part) :
    part.Sound := by
  obtain ⟨part?, looked, taken⟩ := bind_eq_ok.mp found
  cases part? with
  | none => cases taken
  | some part' =>
    cases taken
    exact sound.getConfig? looked

theorem Sound.getConfigOrEmpty {part : Config} (sound : c.Sound)
    (found : c.getConfigOrEmpty path = .ok part) : part.Sound := by
  obtain ⟨part?, looked, taken⟩ := bind_eq_ok.mp found
  cases pure_eq_ok.mp taken
  cases part? with
  | none => exact .withRoot rfl .empty c
  | some part' => exact sound.getConfig? looked

end Operations

end Config

/-! ## The invariant -/

mutual

/-- Every reachable configuration has a well-formed tree whose root is a map. -/
theorem Config.Reachable.sound {c : Config} : c.Reachable → c.Sound
  | .empty => Config.sound_empty
  | .ofValue value made => .ofValue value.wellFormed made
  | .ofPairs values made =>
    Config.sound_empty.putPairs (fun path v mem => (values path v mem).wellFormed) made
  | .put before value made => before.sound.put value.wellFormed made
  | .putIfMissing before value made => before.sound.putIfMissing value.wellFormed made
  | .putAll before value made => before.sound.putAll value.wellFormed made
  | .putAllIfMissing before value made => before.sound.putAllIfMissing value.wellFormed made
  | .remove before made => before.sound.remove made
  | .mapValues before made => ((before.sound.mapValues _).of_state _).of_ok made
  | .filterValues keep o s before => ((before.sound.filterValues keep o).of_state s).of_run
  | .removeEmpty before => before.sound.removeEmpty
  | .resolve before _ made => before.sound.resolve made
  | .withDefaults before other => before.sound.withDefaults other.sound
  | .withValues before other => before.sound.withValues other.sound
  | .hideSecrets before => before.sound.hideSecrets
  | .getConfig? before found => before.sound.getConfig? found
  | .getConfig before found => before.sound.getConfig found
  | .getConfigOrEmpty before found => before.sound.getConfigOrEmpty found
  | .unused before => before.sound.unused
  | .addParser _ before => ⟨before.sound.isMap, before.sound.wellFormed⟩
  | .setParsers _ before => ⟨before.sound.isMap, before.sound.wellFormed⟩
  | .setRedactor _ before => ⟨before.sound.isMap, before.sound.wellFormed⟩

/-- Every value that can be written is well formed. -/
theorem Value.Admissible.wellFormed {v : Value} : v.Admissible → v.WellFormed
  | .null => .null
  | .literal l => .literal l
  | .sequence fits items => .sequence fits fun v mem => (items v mem).wellFormed
  | .mapping values => .mapping fun key v mem => (values key v mem).wellFormed
  | .config reached => .config reached.sound.isMap reached.sound.wellFormed

end

/-! ## What users see -/

namespace Config

section Views

variable {c : Config} {p : Path} {s : Scalar}

/-- The value of a leaf is what a read of its path gives. -/
theorem getValue_of_leaf (parsed : Path.parse p.text = .ok p)
    (leads : c.root.get? p = some (.leaf s)) : c.getValue p.text = .ok (.literal s.plain) := by
  have node : c.node? p.text = .ok (some (p, .leaf s)) :=
    bind_eq_ok.mpr ⟨p, parsed, by rw [leads]; rfl⟩
  have read : c.get? .value p.text = .ok (some (Value.literal s.plain)) :=
    bind_eq_ok.mpr ⟨_, node, rfl⟩
  exact bind_eq_ok.mpr ⟨_, read, rfl⟩

theorem contains_of_leaf (parsed : Path.parse p.text = .ok p)
    (leads : c.root.get? p = some (.leaf s)) : c.contains p.text = true := by
  simp [contains, parsed, leads]

/-- The entries are all leaves, in some order. -/
theorem entries_perm (c : Config) : c.entries.Perm (c.root.leaves .root) :=
  List.mergeSort_perm _ _

/-- The entries are in the order of the texts of their paths. -/
theorem pairwise_entries (c : Config) : c.entries.Pairwise fun x y => x.1.text ≤ y.1.text := by
  have sorted : c.entries.Pairwise fun x y => decide (x.1.text ≤ y.1.text) = true := by
    refine List.pairwise_mergeSort (fun x y z xy yz => ?_) (fun x y => ?_) _
    · exact decide_eq_true (le_trans (of_decide_eq_true xy) (of_decide_eq_true yz))
    · rw [Bool.or_eq_true, decide_eq_true_eq, decide_eq_true_eq]
      exact le_total x.1.text y.1.text
  exact sorted.imp fun ordered => of_decide_eq_true ordered

/-- No two leaves of a sound configuration are shown under one text. -/
theorem Sound.nodup_texts (sound : c.Sound) :
    ((c.root.leaves .root).map fun leaf => leaf.1.text).Nodup := by
  have paths := Node.nodup_leaves sound.wellFormed.distinctKeys .root
  have inj : ∀ p ∈ (c.root.leaves .root).map Prod.fst, ∀ q ∈ (c.root.leaves .root).map Prod.fst,
      p.text = q.text → p = q := by
    intro p here q there same
    obtain ⟨⟨_, s⟩, mem, rfl⟩ := List.mem_map.mp here
    obtain ⟨⟨_, t⟩, mem', rfl⟩ := List.mem_map.mp there
    exact Path.text_injective (sound.wellFormed.readable mem) (sound.wellFormed.readable mem') same
  have texts := paths.map_on inj
  rwa [List.map_map] at texts

/-- The flat view has the entries as they are. -/
theorem Sound.flat_eq (sound : c.Sound) :
    c.flat = c.entries.map fun (p, s) => (p.text, Value.literal s.plain) := by
  refine Entries.ofList_of_nodup ?_
  have texts := (c.entries_perm.map fun leaf => leaf.1.text).nodup_iff.mpr sound.nodup_texts
  rw [Entries.keys, List.map_map]
  exact texts

end Views

/-- What holds of every configuration that a finite number of operations leads to. Its root is a map, keys
are distinct within their maps, and each is a name. Consequently each leaf has a path whose text reads
back and gives exactly its value, and different leaves have different texts. The flat view has one entry
for each leaf, in the same order as the list of leaves, which is the order of the texts. -/
theorem reachable_leaves {c : Config} (reached : c.Reachable) :
    c.root.isMap = true ∧ c.root.WellFormed ∧
    (∀ p s, (p, s) ∈ c.root.leaves .root →
      Path.parse p.text = .ok p ∧ c.contains p.text = true ∧
        c.getValue p.text = .ok (.literal s.plain)) ∧
    ((c.root.leaves .root).map fun leaf => leaf.1.text).Nodup ∧
    c.entries.Perm (c.root.leaves .root) ∧
    c.entries.Pairwise (fun x y => x.1.text ≤ y.1.text) ∧
    c.flat = c.entries.map fun (p, s) => (p.text, Value.literal s.plain) := by
  have sound := reached.sound
  refine ⟨sound.isMap, sound.wellFormed, fun p s mem => ?_, sound.nodup_texts, c.entries_perm,
    c.pairwise_entries, sound.flat_eq⟩
  have parsed := Path.parse_text (sound.wellFormed.readable mem)
  have leads := (Node.mem_leaves_iff sound.wellFormed.distinctKeys).mp mem
  exact ⟨parsed, contains_of_leaf parsed leads, getValue_of_leaf parsed leads⟩

/-- A configuration that was made before and is spliced into a list. -/
theorem reachable_leaves_spliced :
    let host : Node := .map [("host", .leaf (.literal (.string "a")))]
    let inner := Config.empty.withRoot host
    ∃ c, Config.empty.put "servers" (.sequence [inner.asValue]) = .ok c ∧
      c.getValue "servers[0].host" = .ok (.string "a") := by
  intro host inner
  have first : Config.empty.put "host" (.literal (.string "a")) = .ok inner :=
    bind_eq_ok.mpr ⟨[.name "host"], by cbv, rfl⟩
  have reached : inner.Reachable := .put .empty (.literal _) first
  have value : Value.Admissible (.sequence [inner.asValue]) :=
    .sequence (by decide) fun v mem => List.mem_singleton.mp mem ▸ .config reached
  have made : Config.empty.put "servers" (.sequence [inner.asValue]) =
      .ok (Config.empty.withRoot (.map [("servers", .list [host])])) :=
    bind_eq_ok.mpr ⟨[.name "servers"], by cbv, rfl⟩
  obtain ⟨-, -, leaf, -⟩ := reachable_leaves (.put .empty value made)
  exact ⟨_, made, (leaf [.name "servers", .index 0, .name "host"] _ List.mem_cons_self).2.2⟩

end Config

end LayeredConfig
