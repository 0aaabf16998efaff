import LayeredConfig.Node.Merge
import LayeredConfig.Proofs.Node.WellFormed

/-!
# What a merged tree holds

A leaf of a merged tree is a leaf of the first one, or one of the defaults that the first one does not
mask (`get?_withDefaults_leaf_iff`).

The keys of a merged map are the keys that were there, followed by those that only the defaults have, so
they stay distinct (`DistinctKeys.withDefaults`, `WellFormed.withDefaults`).
-/

namespace LayeredConfig.Node

variable {n other : Node} {es ds : List (String × Node)}

@[simp]
theorem withDefaults_leaf (s : Scalar) (other : Node) : (Node.leaf s).withDefaults other = .leaf s := by
  cases other <;> rfl

@[simp]
theorem withDefaults_list (xs : List Node) (other : Node) :
    (Node.list xs).withDefaults other = .list xs := by
  cases other <;> rfl

/-- The entries of two maps together: those that are there, merged with the defaults, and the defaults
that are missing. -/
def mergedEntries (es ds : List (String × Node)) : List (String × Node) :=
  mergeEntries es ds ++ ds.filter fun d => (Entries.get? es d.1).isNone

theorem withDefaults_maps (es ds : List (String × Node)) :
    (Node.map es).withDefaults (.map ds) = .map (mergedEntries es ds) :=
  rfl

/-- A map is merged with a map only. -/
theorem withDefaults_map (es : List (String × Node)) (other : Node) :
    (Node.map es).withDefaults other = .map es ∨ ∃ ds, other = .map ds ∧
      (Node.map es).withDefaults other = .map (mergedEntries es ds) := by
  cases other with
  | map ds => exact .inr ⟨ds, rfl, withDefaults_maps es ds⟩
  | list xs => exact .inl rfl
  | leaf s => exact .inl rfl

theorem keys_mergeEntries (es ds : List (String × Node)) :
    Entries.keys (mergeEntries es ds) = Entries.keys es := by
  induction es with
  | nil => rfl
  | cons entry rest ih =>
    obtain ⟨k, child⟩ := entry
    rw [mergeEntries]
    simp only [Entries.keys, List.map_cons] at ih ⊢
    rw [ih]

theorem mem_mergeEntries {k : String} {merged : Node} (mem : (k, merged) ∈ mergeEntries es ds) :
    ∃ child, (k, child) ∈ es ∧
      (merged = child ∨ ∃ default, (k, default) ∈ ds ∧ merged = child.withDefaults default) := by
  induction es with
  | nil => cases mem
  | cons entry rest ih =>
    obtain ⟨k', child⟩ := entry
    rw [mergeEntries] at mem
    rcases List.mem_cons.mp mem with same | later
    · cases same
      refine ⟨child, List.mem_cons_self, ?_⟩
      split
      · next default found => exact .inr ⟨default, Entries.mem_of_get? found, rfl⟩
      · exact .inl rfl
    · obtain ⟨child', before, merged⟩ := ih later
      exact ⟨child', List.mem_cons_of_mem _ before, merged⟩

/-- An entry of the merged map is one that was there, perhaps merged with a default, or a default. -/
theorem mem_mergedEntries {k : String} {merged : Node} (mem : (k, merged) ∈ mergedEntries es ds) :
    (∃ child, (k, child) ∈ es ∧
      (merged = child ∨ ∃ default, (k, default) ∈ ds ∧ merged = child.withDefaults default)) ∨
    (k, merged) ∈ ds := by
  rcases List.mem_append.mp mem with here | there
  · exact .inl (mem_mergeEntries here)
  · exact .inr (List.mem_filter.mp there).1

theorem isMap_withDefaults (n other : Node) : (n.withDefaults other).isMap = n.isMap := by
  cases n with
  | leaf s => rw [withDefaults_leaf]
  | list xs => rw [withDefaults_list]
  | map es =>
    rcases withDefaults_map es other with same | ⟨ds, rfl, merged⟩
    · rw [same]
    · rw [merged]
      rfl

theorem nodup_mergedEntries (distinct : (Entries.keys es).Nodup)
    (distinct' : (Entries.keys ds).Nodup) : (Entries.keys (mergedEntries es ds)).Nodup := by
  have parts : Entries.keys (mergedEntries es ds) =
      Entries.keys es ++ Entries.keys (ds.filter fun d => (Entries.get? es d.1).isNone) := by
    rw [← keys_mergeEntries es ds]
    exact List.map_append
  rw [parts]
  refine List.nodup_append.mpr ⟨distinct, ?_, ?_⟩
  · exact Entries.nodup_keys_of_sublist List.filter_sublist distinct'
  · -- the second part has only keys that the first part lacks
    rintro k here _ there rfl
    obtain ⟨d, mem, rfl⟩ := List.mem_map.mp there
    have missing := Option.isNone_iff_eq_none.mp (List.mem_filter.mp mem).2
    exact Entries.get?_eq_none_iff.mp missing here

theorem DistinctKeys.withDefaults (distinct : n.DistinctKeys) (distinct' : other.DistinctKeys) :
    (n.withDefaults other).DistinctKeys := by
  induction distinct generalizing other with
  | leaf s =>
    rw [withDefaults_leaf]
    exact .leaf s
  | list children _ =>
    rw [withDefaults_list]
    exact .list children
  | @map es distinct children ih =>
    rcases withDefaults_map es other with same | ⟨ds, rfl, merged⟩
    · rw [same]
      exact .map distinct children
    · rw [merged]
      refine .map (nodup_mergedEntries distinct distinct'.distinct) fun k child mem => ?_
      obtain ⟨before, old, rfl | ⟨default, new, rfl⟩⟩ | default := mem_mergedEntries mem
      · exact children k _ old
      · exact ih k before old (distinct'.entry new)
      · exact distinct'.entry default

/-- A well-formed tree with the values of another one where it has none is well formed. -/
theorem WellFormed.withDefaults (wf : n.WellFormed) (wf' : other.WellFormed) :
    (n.withDefaults other).WellFormed := by
  induction wf generalizing other with
  | leaf s =>
    rw [withDefaults_leaf]
    exact .leaf s
  | list fits children _ =>
    rw [withDefaults_list]
    exact .list fits children
  | @map es distinct names children ih =>
    rcases withDefaults_map es other with same | ⟨ds, rfl, merged⟩
    · rw [same]
      exact .map distinct names children
    · rw [merged]
      cases wf' with
      | map distinct' names' children' =>
        refine .map (nodup_mergedEntries distinct distinct') (fun k child mem => ?_)
          (fun k child mem => ?_)
        · obtain ⟨before, old, -⟩ | default := mem_mergedEntries mem
          · exact names k before old
          · exact names' k child default
        · obtain ⟨before, old, rfl | ⟨default, new, rfl⟩⟩ | default := mem_mergedEntries mem
          · exact children k _ old
          · exact ih k before old (children' k default new)
          · exact children' k child default

/-! ## The leaves of a merged tree -/

section Leaves

/-- Is there something in the tree that hides what defaults have at a path? There is, unless the path
leads through maps to a key that is missing. -/
def masks : Node → Path → Bool
  | .map es, .name k :: rest =>
    match Entries.get? es k with
    | some child => child.masks rest
    | none => false
  | _, _ => true

theorem get?_mergeEntries (es ds : List (String × Node)) (k : String) :
    Entries.get? (mergeEntries es ds) k =
      (Entries.get? es k).map fun child =>
        match Entries.get? ds k with
        | some default => child.withDefaults default
        | none => child := by
  induction es with
  | nil => rfl
  | cons entry rest ih =>
    obtain ⟨k', child⟩ := entry
    rw [mergeEntries, Entries.get?, Entries.get?]
    split
    · next same =>
      subst same
      rfl
    · exact ih

/-- What a merged map holds under a key. -/
theorem get?_mergedEntries (es ds : List (String × Node)) (k : String) :
    Entries.get? (mergedEntries es ds) k =
      match Entries.get? es k, Entries.get? ds k with
      | some child, some default => some (child.withDefaults default)
      | some child, none => some child
      | none, default? => default? := by
  rw [mergedEntries, Entries.get?_append, get?_mergeEntries,
    Entries.get?_filter fun k => (Entries.get? es k).isNone]
  cases Entries.get? es k <;> cases Entries.get? ds k <;> rfl

/-- A leaf of the merged tree is a leaf of the tree, or a leaf of the defaults that the tree does not
mask. -/
theorem get?_withDefaults_leaf_iff {p : Path} {s : Scalar} :
    (n.withDefaults other).get? p = some (.leaf s) ↔
      n.get? p = some (.leaf s) ∨ n.masks p = false ∧ other.get? p = some (.leaf s) := by
  induction p generalizing n other with
  | nil => cases n <;> cases other <;> simp [masks, withDefaults]
  | cons step rest ih =>
    match n, other, step with
    | .leaf _, _, _ => simp [masks]
    | .list _, _, _ => simp [masks]
    | .map _, .map _, .index _ => simp [masks, withDefaults, Node.get?]
    | .map _, .list _, .index _ => simp [masks, withDefaults, Node.get?]
    | .map _, .leaf _, .index _ => simp [masks, withDefaults, Node.get?]
    | .map _, .list _, .name _ => simp [withDefaults, Node.get?]
    | .map _, .leaf _, .name _ => simp [withDefaults, Node.get?]
    | .map es, .map ds, .name k =>
      rw [withDefaults_maps, get?_name, get?_name, get?_name, get?_mergedEntries, masks]
      cases Entries.get? es k with
      | none => simp
      | some child =>
        cases Entries.get? ds k with
        | none => simp
        | some default => exact ih

end Leaves

end LayeredConfig.Node
