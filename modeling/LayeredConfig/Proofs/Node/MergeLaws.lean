import LayeredConfig.Proofs.Node.Merge

/-!
# Laws of merging

A merged map is described entry by entry (`mergeEntries_eq_map`), and that gives the laws of layers:

* a tree merged with itself stays as it is (`withDefaults_self`);
* three layers may be merged in either grouping, unless a leaf or a list of the middle one stands between maps
  of the others (`Clash`). Then the grouping makes no difference exactly if the last map has no key that the
  first one would take (`withDefaults_assoc_iff`);
* so a layer that is merged a second time brings nothing new (`withDefaults_again`, `withDefaults_ahead`).

All of these are equations of trees, with the order of the keys.
-/

namespace LayeredConfig.Node

variable {n other a b c child default last : Node} {es ds fs xs ys done : List (String × Node)}
  {k : String} {p rest : Path}

/-! ## Entry by entry -/

/-- The node with the values of a default, if there is one. -/
def withDefault? (n : Node) (default? : Option Node) : Node :=
  match default? with
  | some default => n.withDefaults default
  | none => n

/-- The defaults under keys that the entries lack. -/
def added (es ds : List (String × Node)) : List (String × Node) :=
  ds.filter fun d => (Entries.get? es d.1).isNone

theorem mergedEntries_eq (es ds : List (String × Node)) :
    mergedEntries es ds = mergeEntries es ds ++ added es ds :=
  rfl

theorem mergeEntries_eq_map (es ds : List (String × Node)) :
    mergeEntries es ds = es.map fun e => (e.1, e.2.withDefault? (Entries.get? ds e.1)) := by
  induction es with
  | nil => rfl
  | cons entry rest ih =>
    obtain ⟨k, child⟩ := entry
    rw [mergeEntries, List.map_cons, ih]
    rfl

theorem mergeEntries_nil_right (es : List (String × Node)) : mergeEntries es [] = es := by
  rw [mergeEntries_eq_map]
  exact List.map_id _

theorem mergedEntries_nil_right (es : List (String × Node)) : mergedEntries es [] = es := by
  rw [mergedEntries_eq, mergeEntries_nil_right]
  exact List.append_nil es

/-- Which entries are added depends on the keys only, so merging may come before or after. -/
theorem added_mergeEntries (es ds fs : List (String × Node)) :
    added es (mergeEntries ds fs) = mergeEntries (added es ds) fs := by
  rw [added, added, mergeEntries_eq_map, mergeEntries_eq_map, List.filter_map]
  rfl

/-- What is added to a merged map is what both maps lack. -/
theorem added_mergedEntries (es ds fs : List (String × Node)) :
    added (mergedEntries es ds) fs = added es (added ds fs) := by
  unfold added
  rw [List.filter_filter]
  congr 1
  funext f
  rw [get?_mergedEntries]
  cases Entries.get? es f.1 <;> cases Entries.get? ds f.1 <;> rfl

/-- Three maps, the first two merged first. -/
theorem mergedEntries_left (es ds fs : List (String × Node)) :
    mergedEntries (mergedEntries es ds) fs =
      mergeEntries (mergeEntries es ds) fs ++
        (mergeEntries (added es ds) fs ++ added es (added ds fs)) := by
  have whole : mergeEntries (mergedEntries es ds) fs =
      mergeEntries (mergeEntries es ds) fs ++ mergeEntries (added es ds) fs := by
    simp only [mergedEntries_eq, mergeEntries_eq_map, List.map_append]
  rw [mergedEntries_eq (mergedEntries es ds), added_mergedEntries, whole, List.append_assoc]

/-- Three maps, the last two merged first. -/
theorem mergedEntries_right (es ds fs : List (String × Node)) :
    mergedEntries es (mergedEntries ds fs) =
      mergeEntries es (mergedEntries ds fs) ++
        (mergeEntries (added es ds) fs ++ added es (added ds fs)) := by
  have parts : added es (mergedEntries ds fs) = added es (mergeEntries ds fs) ++ added es (added ds fs) :=
    List.filter_append ..
  rw [mergedEntries_eq es, parts, added_mergeEntries]

/-- The entries that come from the last two maps alone are the same in both groupings. So it is a matter of the
entries of the first map. -/
theorem mergedEntries_assoc_iff :
    mergedEntries (mergedEntries es ds) fs = mergedEntries es (mergedEntries ds fs) ↔
      ∀ k child, (k, child) ∈ es →
        (child.withDefault? (Entries.get? ds k)).withDefault? (Entries.get? fs k) =
          child.withDefault? (Entries.get? (mergedEntries ds fs) k) := by
  rw [mergedEntries_left, mergedEntries_right, List.append_cancel_right_eq]
  simp only [mergeEntries_eq_map, List.map_map, List.map_inj_left]
  simp

/-- Merging one more default. It is put under its key, merged with what is there. -/
theorem mergedEntries_append_singleton (distinct : (Entries.keys es).Nodup)
    (missing : Entries.get? done k = none) (default : Node) :
    mergedEntries es (done ++ [(k, default)]) =
      Entries.put (mergedEntries es done) k
        (match Entries.get? es k with
          | some child => child.withDefaults default
          | none => default) := by
  have later (other : String) : Entries.get? (done ++ [(k, default)]) other =
      if k = other then some default else Entries.get? done other := by
    rw [Entries.get?_append]
    by_cases same : k = other
    · subst same
      simp [missing, Entries.get?]
    · simp [Entries.get?, same]
  have whole : added es (done ++ [(k, default)]) = added es done ++ added es [(k, default)] :=
    List.filter_append ..
  rw [mergedEntries_eq, whole, mergedEntries_eq]
  cases found : Entries.get? es k with
  | none =>
    -- the default is added at the end, and the entries are merged as before
    have others : mergeEntries es (done ++ [(k, default)]) = mergeEntries es done := by
      rw [mergeEntries_eq_map, mergeEntries_eq_map]
      refine List.map_congr_left fun e mem => ?_
      have differ : k ≠ e.1 := by
        rintro rfl
        exact Entries.get?_eq_none_iff.mp found (Entries.mem_keys_of_mem mem)
      rw [later, if_neg differ]
    have lacks : Entries.get? (mergeEntries es done ++ added es done) k = none := by
      rw [← mergedEntries_eq, get?_mergedEntries, found, missing]
    rw [others, Entries.put_of_get?_eq_none lacks, List.append_assoc]
    simp [added, found]
  | some child =>
    -- the entry with its key is the only one that changes
    have there : k ∈ Entries.keys (mergeEntries es done) := by
      rw [keys_mergeEntries]
      exact Entries.mem_keys_of_mem (Entries.mem_of_get? found)
    have nothing : added es [(k, default)] = [] := by simp [added, found]
    rw [nothing, List.append_nil, Entries.put_append there,
      Entries.put_eq_map (by rwa [keys_mergeEntries]) there, mergeEntries_eq_map, mergeEntries_eq_map,
      List.map_map]
    congr 1
    refine List.map_congr_left fun e mem => ?_
    obtain ⟨k', old⟩ := e
    by_cases same : k' = k
    · subst same
      cases found.symm.trans (Entries.get?_eq_some_of_mem distinct mem)
      simp [later, withDefault?]
    · simp [later, same, Ne.symm same]

/-! ## A tree with itself -/

/-- Every key is there already, with the same child. -/
theorem withDefaults_self (keys : n.DistinctKeys) : n.withDefaults n = n := by
  induction keys with
  | leaf s => rw [withDefaults_leaf]
  | list _ _ => rw [withDefaults_list]
  | @map es distinct _ ih =>
    have found (e : String × Node) (mem : e ∈ es) : Entries.get? es e.1 = some e.2 :=
      Entries.get?_eq_some_of_mem distinct mem
    have nothing : added es es = [] := by
      refine List.filter_eq_nil_iff.mpr fun e mem => ?_
      simp [found e mem]
    have same : mergeEntries es es = es := by
      rw [mergeEntries_eq_map]
      refine (List.map_congr_left fun e mem => ?_).trans (List.map_id es)
      rw [found e mem]
      exact congrArg (Prod.mk e.1) (ih e.1 e.2 mem)
    rw [withDefaults_maps, mergedEntries_eq, same, nothing, List.append_nil]

/-! ## Three trees -/

theorem withDefaults_of_not_isMap (noMap : n.isMap = false) (other : Node) : n.withDefaults other = n := by
  cases n with
  | leaf s => rw [withDefaults_leaf]
  | list xs => rw [withDefaults_list]
  | map es => cases noMap

theorem withDefaults_not_isMap (n : Node) (noMap : other.isMap = false) : n.withDefaults other = n := by
  cases n with
  | leaf s => rw [withDefaults_leaf]
  | list xs => rw [withDefaults_list]
  | map es =>
    cases other with
    | map ds => cases noMap
    | leaf s => rfl
    | list xs => rfl

/-- Names lead on from maps only. -/
theorem isMap_or_root (names : ∀ step ∈ p, step.isName) (found : n.get? p = some other) :
    n.isMap = true ∨ p = [] := by
  match n, p, names with
  | .map es, _, _ => exact .inl rfl
  | _, [], _ => exact .inr rfl
  | .leaf s, step :: rest, _ => simp at found
  | .list xs, .name k :: rest, _ => cases found
  | .list xs, .index i :: rest, names => cases names (.index i) List.mem_cons_self

theorem isMap_of_get?_map (names : ∀ step ∈ p, step.isName) (found : n.get? p = some (.map es)) :
    n.isMap = true := by
  rcases isMap_or_root names found with isMap | rfl
  · exact isMap
  · cases (get?_nil n).symm.trans found
    rfl

/-- At a path by names the first and the last tree have the given maps, and what the one between them has there
is no map. -/
structure Clash (a b c : Node) (p : Path) (es fs : List (String × Node)) : Prop where
  names : ∀ step ∈ p, step.isName
  first : a.get? p = some (.map es)
  between : ∃ m, b.get? p = some m ∧ m.isMap = false
  last : c.get? p = some (.map fs)

/-- Where all three trees are maps, a clash lies below one of their common keys. -/
theorem clash_maps_iff :
    Clash (.map es) (.map ds) (.map fs) p xs ys ↔
      ∃ k rest child default last, p = .name k :: rest ∧ Entries.get? es k = some child ∧
        Entries.get? ds k = some default ∧ Entries.get? fs k = some last ∧
        Clash child default last rest xs ys := by
  constructor
  · rintro ⟨names, first, ⟨m, between, noMap⟩, last⟩
    match p, names with
    | [], _ =>
      cases between
      cases noMap
    | .index i :: rest, _ => cases first
    | .name k :: rest, names =>
      rw [get?_name] at first between last
      obtain ⟨child, here, first⟩ := Option.bind_eq_some_iff.mp first
      obtain ⟨default, here', between⟩ := Option.bind_eq_some_iff.mp between
      obtain ⟨last', here'', last⟩ := Option.bind_eq_some_iff.mp last
      obtain ⟨-, names⟩ := List.forall_mem_cons.mp names
      exact ⟨k, rest, child, default, last', rfl, here, here', here'',
        names, first, ⟨m, between, noMap⟩, last⟩
  · rintro ⟨k, rest, child, default, last', rfl, here, here', here'', names, first, ⟨m, between, noMap⟩,
      last⟩
    refine ⟨List.forall_mem_cons.mpr ⟨rfl, names⟩, ?_, ⟨m, ?_, noMap⟩, ?_⟩
    · rw [get?_name, here]
      exact first
    · rw [get?_name, here']
      exact between
    · rw [get?_name, here'']
      exact last

/-- Three layers may be merged in either grouping exactly if, wherever a leaf or a list of the middle one stands
between maps of the others, the last map has nothing that the first one would take. -/
theorem withDefaults_assoc_iff (keys : a.DistinctKeys) :
    (a.withDefaults b).withDefaults c = a.withDefaults (b.withDefaults c) ↔
      ∀ p es fs, Clash a b c p es fs → (Node.map es).withDefaults (.map fs) = .map es := by
  induction keys generalizing b c with
  | leaf s =>
    refine iff_of_true (by simp) fun p es fs clash => ?_
    cases isMap_of_get?_map clash.names clash.first
  | @list xs _ _ =>
    refine iff_of_true (by simp) fun p es fs clash => ?_
    cases isMap_of_get?_map clash.names clash.first
  | @map es distinct _ ih =>
    cases lastMap : c.isMap with
    | false =>
      refine iff_of_true ?_ fun p es fs clash => ?_
      · rw [withDefaults_not_isMap _ lastMap, withDefaults_not_isMap _ lastMap]
      · rw [isMap_of_get?_map clash.names clash.last] at lastMap
        cases lastMap
    | true =>
      match c, lastMap with
      | .map fs, _ =>
        cases betweenMap : b.isMap with
        | false =>
          -- the only clash is at the root
          rw [withDefaults_not_isMap _ betweenMap, withDefaults_of_not_isMap betweenMap,
            withDefaults_not_isMap _ betweenMap]
          constructor
          · rintro same p xs ys ⟨names, first, ⟨m, between, noMap⟩, last⟩
            rcases isMap_or_root names between with isMap | rfl
            · rw [isMap] at betweenMap
              cases betweenMap
            · cases first
              cases last
              exact same
          · exact fun each => each [] es fs ⟨nofun, rfl, ⟨b, get?_nil b, betweenMap⟩, rfl⟩
        | true =>
          match b, betweenMap with
          | .map ds, _ =>
            rw [withDefaults_maps, withDefaults_maps, withDefaults_maps, withDefaults_maps,
              Node.map.injEq, mergedEntries_assoc_iff]
            constructor
            · intro each p xs ys clash
              obtain ⟨k, rest, child, default, last, rfl, here, here', here'', below⟩ :=
                clash_maps_iff.mp clash
              have mem := Entries.mem_of_get? here
              have same := each k child mem
              rw [get?_mergedEntries, here', here''] at same
              exact (ih k child mem).mp same rest xs ys below
            · intro each k child mem
              have here := Entries.get?_eq_some_of_mem distinct mem
              rw [get?_mergedEntries]
              cases here' : Entries.get? ds k with
              | none => rfl
              | some default =>
                cases here'' : Entries.get? fs k with
                | none => rfl
                | some last =>
                  refine (ih k child mem).mpr fun rest xs ys below => each (.name k :: rest) xs ys ?_
                  exact clash_maps_iff.mpr
                    ⟨k, rest, child, default, last, rfl, here, here', here'', below⟩

/-- A layer that was merged brings nothing new. -/
theorem withDefaults_again (keys : a.DistinctKeys) (keys' : b.DistinctKeys) :
    (a.withDefaults b).withDefaults b = a.withDefaults b := by
  have grouped : (a.withDefaults b).withDefaults b = a.withDefaults (b.withDefaults b) := by
    refine (withDefaults_assoc_iff keys).mpr fun p es fs clash => ?_
    obtain ⟨m, between, noMap⟩ := clash.between
    cases between.symm.trans clash.last
    cases noMap
  rw [grouped, withDefaults_self keys']

/-- Nor does the layer in front. -/
theorem withDefaults_ahead (keys : a.DistinctKeys) (b : Node) :
    a.withDefaults (a.withDefaults b) = a.withDefaults b := by
  have grouped : (a.withDefaults a).withDefaults b = a.withDefaults (a.withDefaults b) := by
    refine (withDefaults_assoc_iff keys).mpr fun p es fs clash => ?_
    obtain ⟨m, between, noMap⟩ := clash.between
    cases between.symm.trans clash.first
    cases noMap
  rw [← grouped, withDefaults_self keys]

/-- Layers may be merged in either grouping if, wherever the first and the last one have maps at a path by names,
the one between them has a map there as well, or nothing. -/
theorem withDefaults_assoc (keys : a.DistinctKeys)
    (fits : ∀ p es m fs, (∀ step ∈ p, step.isName) → a.get? p = some (.map es) → b.get? p = some m →
      c.get? p = some (.map fs) → m.isMap = true) :
    (a.withDefaults b).withDefaults c = a.withDefaults (b.withDefaults c) := by
  refine (withDefaults_assoc_iff keys).mpr ?_
  rintro p es fs ⟨names, first, ⟨m, between, noMap⟩, last⟩
  rw [fits p es m fs names first between last] at noMap
  cases noMap

/-- Maps with other keys, a leaf in front of maps, a leaf between a missing entry and a map, and one behind a map. -/
theorem withDefaults_assoc_kinds :
    let one : Node := .leaf (.literal (.integer 1))
    let two : Node := .leaf (.literal (.integer 2))
    let a : Node := .map [("m", .map [("x", one)]), ("t", one), ("s", .map [])]
    let b : Node := .map [("m", .map [("y", two)]), ("t", .map [("u", two)]), ("n", two)]
    let c : Node := .map [("m", .map [("x", two), ("z", two)]), ("t", .map [("v", two)]),
      ("n", .map [("w", two)]), ("s", two)]
    a.DistinctKeys ∧
      (a.withDefaults b).withDefaults c = a.withDefaults (b.withDefaults c) ∧
      (a.withDefaults b).withDefaults c =
        .map [("m", .map [("x", one), ("y", two), ("z", two)]), ("t", one), ("s", .map []), ("n", two)] := by
  intro one two a b c
  have keys : a.DistinctKeys := by
    refine .map (by simp [Entries.keys]) fun k child mem => ?_
    simp only [List.mem_cons, Prod.mk.injEq, List.not_mem_nil, or_false] at mem
    rcases mem with ⟨rfl, rfl⟩ | ⟨rfl, rfl⟩ | ⟨rfl, rfl⟩
    · exact DistinctKeys.empty.put (.leaf _) "x"
    · exact .leaf _
    · exact .empty
  refine ⟨keys, withDefaults_assoc keys fun p es m fs names first between last => ?_, rfl⟩
  by_contra noMap
  have clash : Clash a b c p es fs := ⟨names, first, ⟨m, between, by simpa using noMap⟩, last⟩
  -- all three have entries under two keys, maps under the one and a leaf in front under the other
  obtain ⟨k, rest, child, default, last, -, here, here', here'', below⟩ := clash_maps_iff.mp clash
  by_cases isM : k = "m"
  · subst isM
    cases here
    cases here'
    cases here''
    obtain ⟨k, rest, child, default, last, -, here, here', -⟩ := clash_maps_iff.mp below
    simp only [Entries.get?] at here here'
    grind
  · have isT : k = "t" := by
      simp only [Entries.get?] at here here' here''
      grind
    subst isT
    cases here
    cases isMap_of_get?_map below.names below.first

end LayeredConfig.Node
