import LayeredConfig.Config.Edit
import LayeredConfig.Proofs.Node.MergeLaws
import LayeredConfig.Proofs.Value

/-!
# Merging what is there already

Nodes are shared between trees, and two trees often have one and the same node at the same place. Merging a
node with itself changes nothing, so it can be left out. `mergeShared` is the merge with this shortcut, as a
loop that puts the defaults into the map one after the other, and it makes the same tree
(`mergeShared_eq`). Which nodes are shared is up to the history of the trees. It is given as a test of paths,
of which no more is asked than that it is right (`SharesSoundly`).

By the same law a layer that is merged twice counts once (`withDefaults_absorbs`).
-/

namespace LayeredConfig.Node

variable {a b child default : Node} {es ds done : List (String × Node)} {k : String}
  {shared : Path → Bool} {place : Path}

/-! ## Leaving out shared nodes -/

mutual

/-- The tree at `place` with the values of `other` where it has none. A child is merged only if it and its
default are maps, and are not said to be one shared node. -/
def mergeShared (shared : Path → Bool) (place : Path) (n other : Node) : Node :=
  match n, other with
  | .map es, .map ds => .map (mergeLoop shared place es es ds)
  | n, _ => n

/-- Puts the defaults into `merged` one after the other. The entries `es` are those that were there before. -/
def mergeLoop (shared : Path → Bool) (place : Path) (es merged ds : List (String × Node)) :
    List (String × Node) :=
  match ds with
  | [] => merged
  | (k, default) :: rest =>
    let merged := match Entries.get? es k with
      | some child =>
        if child.isMap && default.isMap && !shared (place.key k) then
          Entries.put merged k (child.mergeShared shared (place.key k) default)
        else merged
      | none => Entries.put merged k default
    mergeLoop shared place es merged rest

end

/-- Where both trees have a node and it is said to be shared, it is the same node. -/
def SharesSoundly (shared : Path → Bool) (place : Path) (a b : Node) : Prop :=
  ∀ p child default, shared (place ++ p) = true → a.get? p = some child → b.get? p = some default →
    child = default

theorem SharesSoundly.entry (sound : SharesSoundly shared place (.map es) (.map ds))
    (here : Entries.get? es k = some child) (there : Entries.get? ds k = some default) :
    SharesSoundly shared (place.key k) child default := by
  intro p old new share found found'
  refine sound (.name k :: p) old new ?_ ?_ ?_
  · simpa [Path.key] using share
  · rw [get?_name, here]
    exact found
  · rw [get?_name, there]
    exact found'

/-- The loop goes on from where `done` has been merged. -/
theorem mergeLoop_eq (distinct : (Entries.keys es).Nodup) (distinct' : (Entries.keys (done ++ ds)).Nodup)
    (each : ∀ k child default, Entries.get? es k = some child → (k, default) ∈ ds →
      (if child.isMap && default.isMap && !shared (place.key k) then
        child.mergeShared shared (place.key k) default else child) = child.withDefaults default) :
    mergeLoop shared place es (mergedEntries es done) ds = mergedEntries es (done ++ ds) := by
  induction ds generalizing done with
  | nil => rw [mergeLoop, List.append_nil]
  | cons entry rest ih =>
    obtain ⟨k, default⟩ := entry
    have missing := Entries.get?_eq_none_of_nodup distinct'
    have later : mergeLoop shared place es (mergedEntries es (done ++ [(k, default)])) rest =
        mergedEntries es (done ++ [(k, default)] ++ rest) :=
      ih (by rwa [List.append_assoc])
        fun k child default found mem => each k child default found (List.mem_cons_of_mem _ mem)
    rw [List.append_assoc, List.singleton_append,
      mergedEntries_append_singleton distinct missing] at later
    rw [mergeLoop, ← later]
    cases found : Entries.get? es k with
    | none => rfl
    | some child =>
      have merged := each k child default found List.mem_cons_self
      dsimp only at merged ⊢
      rw [← merged]
      split
      · rfl
      · -- what is left out would have put back the child that is there
        have there : Entries.get? (mergedEntries es done) k = some child := by
          rw [get?_mergedEntries, found, missing]
        rw [Entries.put_self there]

/-- Leaving out the shared nodes makes no difference. -/
theorem mergeShared_eq (keys : a.DistinctKeys) (keys' : b.DistinctKeys)
    (sound : SharesSoundly shared place a b) : a.mergeShared shared place b = a.withDefaults b := by
  induction keys generalizing b place with
  | leaf s => cases b <;> simp [mergeShared]
  | list _ _ => cases b <;> simp [mergeShared]
  | @map es distinct children ih =>
    cases b with
    | leaf s => simp [mergeShared, withDefaults]
    | list xs => simp [mergeShared, withDefaults]
    | map ds =>
      have start : mergedEntries es [] = es := mergedEntries_nil_right es
      rw [mergeShared, withDefaults_maps, ← List.nil_append ds]
      nth_rewrite 2 [← start]
      refine congrArg Node.map (mergeLoop_eq distinct keys'.distinct fun k child default here mem => ?_)
      have there := Entries.get?_eq_some_of_mem keys'.distinct mem
      have mem' := Entries.mem_of_get? here
      split
      · exact ih k child mem' (keys'.entry mem) (sound.entry here there)
      · next skipped =>
        rw [Bool.not_eq_true, Bool.and_eq_false_iff, Bool.and_eq_false_iff] at skipped
        rcases skipped with (noMap | noMap) | share
        · rw [withDefaults_of_not_isMap noMap]
        · rw [withDefaults_not_isMap child noMap]
        · have same : child = default := by
            refine sound [.name k] child default ?_ ?_ ?_
            · simpa [Path.key] using share
            · rw [get?_name, here]
              exact get?_nil child
            · rw [get?_name, there]
              exact get?_nil default
          rw [← same, withDefaults_self (children k child mem')]

end LayeredConfig.Node

/-! ## Merging twice -/

namespace LayeredConfig.Config

variable {c : Config} {v : Value}

theorem putAll_putAll (c : Config) (keys : v.DistinctKeys) :
    (c.putAll v >>= fun d => d.putAll v) = c.putAll v := by
  cases made : v.toRoot with
  | error e => simp [putAll, made, bind, Except.bind]
  | ok root =>
    have again := Node.withDefaults_ahead (keys.toRoot made) c.root
    simp [putAll, made, bind, Except.bind, pure, Except.pure, withRoot, again]

theorem putAllIfMissing_putAllIfMissing (keys : c.root.DistinctKeys) (keys' : v.DistinctKeys) :
    (c.putAllIfMissing v >>= fun d => d.putAllIfMissing v) = c.putAllIfMissing v := by
  cases made : v.toRoot with
  | error e => simp [putAllIfMissing, made, bind, Except.bind]
  | ok root =>
    have again := Node.withDefaults_again keys (keys'.toRoot made)
    simp [putAllIfMissing, made, bind, Except.bind, pure, Except.pure, withRoot, again]

end LayeredConfig.Config

namespace LayeredConfig.Node

variable {a b : Node}

/-- Merging is idempotent and absorbs what was merged before, with the order of the keys. So nodes that are
shared may be left out, and putting all values twice, in front or behind, is the same as once. If the values have no
tree, both fail alike. -/
theorem withDefaults_absorbs (keys : a.DistinctKeys) (keys' : b.DistinctKeys) :
    a.withDefaults a = a ∧
      (a.withDefaults b).withDefaults b = a.withDefaults b ∧
      a.withDefaults (a.withDefaults b) = a.withDefaults b ∧
      (∀ shared, SharesSoundly shared .root a b → a.mergeShared shared .root b = a.withDefaults b) ∧
      ∀ (c : Config) (v : Value), c.root.DistinctKeys → v.DistinctKeys →
        (c.putAll v >>= fun d => d.putAll v) = c.putAll v ∧
        (c.putAllIfMissing v >>= fun d => d.putAllIfMissing v) = c.putAllIfMissing v := by
  refine ⟨withDefaults_self keys, withDefaults_again keys keys', withDefaults_ahead keys b, ?_, ?_⟩
  · exact fun shared sound => mergeShared_eq keys keys' sound
  · intro c v keys keys'
    exact ⟨c.putAll_putAll keys', Config.putAllIfMissing_putAllIfMissing keys keys'⟩

/-- A float that is not a number below a map that both trees share. -/
theorem withDefaults_absorbs_shared :
    let nan : Node := .leaf (.literal (.float ⟨0x7ff8000000000001⟩))
    let one : Node := .leaf (.literal (.integer 1))
    let common : Node := .map [("limit", nan)]
    let a : Node := .map [("s", common), ("m", .map [("x", one)])]
    let b : Node := .map [("t", nan), ("m", .map [("y", nan), ("x", nan)]), ("s", common)]
    let both : Node := .map [("s", common), ("m", .map [("x", one), ("y", nan)]), ("t", nan)]
    let shared (p : Path) : Bool := p == [.name "s"]
    let c := Config.empty.withRoot a
    let v : Value := .mapping [("m.y", .literal (.integer 1)), ("n", .config ⟨common, .standard⟩)]
    a.withDefaults b = both ∧ a.withDefaults a = a ∧ both.withDefaults b = both ∧
      a.withDefaults both = both ∧ a.mergeShared shared .root b = both ∧
      (∃ d, c.putAll v = .ok d ∧ d.putAll v = .ok d) ∧
      ∃ d, c.putAllIfMissing v = .ok d ∧ d.putAllIfMissing v = .ok d := by
  intro nan one common a b both shared c v
  have keys : a.DistinctKeys := by
    have inner := DistinctKeys.empty.put (.leaf (.literal (.integer 1))) "x"
    exact (DistinctKeys.empty.put (DistinctKeys.empty.put (.leaf _) "limit") "s").put inner "m"
  have keys' : b.DistinctKeys := by
    have inner := (DistinctKeys.empty.put (.leaf (.literal (.float ⟨0x7ff8000000000001⟩))) "y").put
      (.leaf (.literal (.float ⟨0x7ff8000000000001⟩))) "x"
    exact ((DistinctKeys.empty.put (.leaf _) "t").put inner "m").put
      (DistinctKeys.empty.put (.leaf _) "limit") "s"
  have sound : SharesSoundly shared .root a b := by
    intro p child default share found found'
    cases eq_of_beq share
    exact Option.some.inj (found.symm.trans found')
  have values : v.DistinctKeys := by
    refine .mapping fun k w mem => ?_
    simp only [List.mem_cons, Prod.mk.injEq, List.not_mem_nil, or_false] at mem
    rcases mem with ⟨-, rfl⟩ | ⟨-, rfl⟩
    · exact .literal _
    · exact .config (DistinctKeys.empty.put (.leaf _) "limit")
  obtain ⟨self, again, ahead, loop, twice⟩ := withDefaults_absorbs keys keys'
  obtain ⟨first, second⟩ := twice c v keys values
  have merged : a.withDefaults b = both := rfl
  rw [merged] at again ahead loop
  refine ⟨merged, self, again, ahead, loop shared sound, ?_, ?_⟩
  · obtain ⟨d, made⟩ : ∃ d, c.putAll v = .ok d := ⟨_, rfl⟩
    rw [made] at first
    exact ⟨d, made, first⟩
  · obtain ⟨d, made⟩ : ∃ d, c.putAllIfMissing v = .ok d := ⟨_, rfl⟩
    rw [made] at second
    exact ⟨d, made, second⟩

end LayeredConfig.Node
