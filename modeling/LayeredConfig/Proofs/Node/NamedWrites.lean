import LayeredConfig.Proofs.Node.Congruence
import LayeredConfig.Proofs.Node.MergeLaws
import LayeredConfig.Proofs.Node.Walk

/-!
# Writes along names

A path by names leads through maps only, so a write along it cannot fail by itself. It makes a map wherever there
is none, and comes to a function of the tree and the new node (`graft`, `put_names`). A write that only fills gaps
does the same, unless something masks the path (`fill?_names`).

* Written into an empty map, the new node makes a layer with one entry (`layer`). Merging that layer in front of
  a tree is writing, and merging it behind is filling, as long as the new node is no map itself
  (`equal_layer_withDefaults`, `withDefaults_layer`).
* Writes along names of which none is a prefix of the other may be done in either order (`equal_graft_comm`).
-/

namespace LayeredConfig.Node

variable {n new x y : Node} {es : List (String × Node)} {k : String} {names other rest : List String}
  {build : Path → Result Node} {place : Path}

/-! ## What a write does -/

/-- The entries of a map. Other nodes have none. -/
def entries : Node → List (String × Node)
  | .map es => es
  | _ => []

/-- What a write finds under a key, where it makes a map if there is nothing. -/
def entryOrEmpty (n : Node) (k : String) : Node :=
  (Entries.get? n.entries k).getD .empty

/-- The tree with `new` under the names, one below the other. What is no map on the way gives place to one. -/
def graft (n : Node) (names : List String) (new : Node) : Node :=
  match names with
  | [] => new
  | k :: rest => .map (Entries.put n.entries k ((n.entryOrEmpty k).graft rest new))

/-- The tree that holds nothing but `new` under the names. -/
def layer (names : List String) (new : Node) : Node :=
  empty.graft names new

theorem graft_cons (n : Node) (k : String) (rest : List String) (new : Node) :
    n.graft (k :: rest) new =
      .map (Entries.put n.entries k ((n.entryOrEmpty k).graft rest new)) := by
  rw [graft]

theorem layer_cons (k : String) (rest : List String) (new : Node) :
    layer (k :: rest) new = .map [(k, layer rest new)] := by
  unfold layer
  rw [graft]
  rfl

theorem wrap_names (full : Path) (names : List String) (new : Node) :
    wrap full new (names.map .name) = .ok (layer names new) := by
  induction names with
  | nil => rfl
  | cons k rest ih =>
    rw [List.map_cons, wrap, ih, layer_cons]
    rfl

theorem fresh_names (build : Path → Result Node) (place : Path) (names : List String) :
    fresh build place (names.map .name) = layer names <$> build (place ++ names.map .name) := by
  unfold fresh
  simp only [wrap_names]
  exact bind_pure_comp (layer names) _

/-- A write along names fails only where its node cannot be built. -/
theorem put_names (build : Path → Result Node) (place : Path) (n : Node) (names : List String) :
    n.put build place (names.map .name) = n.graft names <$> build (place ++ names.map .name) := by
  induction names generalizing n place with
  | nil =>
    rw [List.map_nil, put_nil, List.append_nil, show n.graft [] = id from rfl, id_map]
  | cons k rest ih =>
    have path : place.key k ++ rest.map .name = place ++ (k :: rest).map .name := by simp [Path.key]
    rw [List.map_cons]
    cases n with
    | leaf s =>
      rw [put_refused rfl]
      exact fresh_names build place (k :: rest)
    | list xs =>
      rw [put_refused rfl]
      exact fresh_names build place (k :: rest)
    | map es =>
      have below : (Node.map es).graft (k :: rest) =
          (fun child => .map (Entries.put es k child)) ∘
            ((Node.map es).entryOrEmpty k).graft rest := by
        funext new
        exact graft_cons _ k rest new
      rw [put, below, comp_map, ← List.map_cons, ← path]
      cases found : Entries.get? es k with
      | some child =>
        rw [show (Node.map es).entryOrEmpty k = child by simp [entryOrEmpty, entries, found], ← ih]
        exact bind_pure_comp _ _
      | none =>
        rw [show (Node.map es).entryOrEmpty k = .empty by simp [entryOrEmpty, entries, found]]
        dsimp only
        rw [fresh_names]
        exact bind_pure_comp _ _

/-- A write that only fills gaps does nothing where something masks the path, and else it writes. -/
theorem fill?_names (build : Path → Result Node) (place : Path) (n : Node) (names : List String) :
    n.fill? build place (names.map .name) =
      if n.masks (names.map .name) then .ok none
      else some <$> n.put build place (names.map .name) := by
  induction names generalizing n place with
  | nil => cases n <;> rfl
  | cons k rest ih =>
    rw [List.map_cons]
    match n with
    | .leaf s => rfl
    | .list xs => rfl
    | .map es =>
      rw [masks]
      cases found : Entries.get? es k with
      | some child =>
        have isChild : IsChild (.map es) (.name k) child := .entry found
        rw [isChild.fill?, isChild.put, ih]
        dsimp only
        split
        · rfl
        · rw [← comp_map, ← comp_map]
          rfl
      | none =>
        have noIndex : (rest.map Step.name).any Step.isIndex = false := by
          simp [Step.isIndex]
        rw [fill?, put, found]
        simp [noIndex]

theorem fill_names (build : Path → Result Node) (place : Path) (n : Node) (names : List String) :
    n.fill build place (names.map .name) =
      if n.masks (names.map .name) then .ok n else n.put build place (names.map .name) := by
  unfold fill
  rw [fill?_names]
  split
  · rfl
  · cases n.put build place (names.map .name) <;> rfl

/-! ## What a write leads to -/

theorem writes_graft (n : Node) (names : List String) (new : Node) :
    Writes new n (names.map .name) (n.graft names new) := by
  have written := put_names (fun _ => .ok new) .root n names
  obtain ⟨node, built, way⟩ := put_eq_ok_iff.mp written
  cases built
  exact way

theorem distinctKeys_graft (keys : n.DistinctKeys) (new_ : new.DistinctKeys) (names : List String) :
    (n.graft names new).DistinctKeys :=
  (writes_graft n names new).distinctKeys keys new_

theorem distinctKeys_layer (keys : new.DistinctKeys) (names : List String) :
    (layer names new).DistinctKeys :=
  distinctKeys_graft .empty keys names

theorem distinctKeys_entries (keys : n.DistinctKeys) : (Node.map n.entries).DistinctKeys := by
  cases n with
  | leaf s => exact .empty
  | map es => exact keys
  | list xs => exact .empty

theorem distinctKeys_entryOrEmpty (keys : n.DistinctKeys) (k : String) :
    (n.entryOrEmpty k).DistinctKeys := by
  unfold entryOrEmpty
  cases found : Entries.get? n.entries k with
  | none => exact .empty
  | some child => exact (distinctKeys_entries keys).entry (Entries.mem_of_get? found)

/-! ## Writing and merging -/

/-- A layer in front of a tree is a write into the tree. Only the order of the keys is another one, since those of
the layer come first. -/
theorem equal_layer_withDefaults (keys : n.DistinctKeys) (new_ : new.DistinctKeys)
    (noMap : new.isMap = false) (names : List String) :
    ((layer names new).withDefaults n).Equal (n.graft names new) := by
  induction names generalizing n with
  | nil =>
    rw [show layer [] new = new from rfl, withDefaults_of_not_isMap noMap]
    exact .refl new_
  | cons k rest ih =>
    have refl := Equal.refl (distinctKeys_graft keys new_ (k :: rest))
    cases n with
    | leaf s => exact refl
    | list xs => exact refl
    | map es =>
      have inner := distinctKeys_layer new_ rest
      rw [layer_cons, withDefaults_maps, graft_cons]
      refine equal_map_iff.mpr ⟨nodup_mergedEntries (List.nodup_singleton k) keys.distinct,
        Entries.nodup_keys_put keys.distinct k _, fun other => ?_⟩
      rw [get?_mergedEntries, Entries.get?_put]
      by_cases same : k = other
      · subst same
        rw [if_pos rfl]
        simp only [Entries.get?, if_true, entryOrEmpty, entries]
        cases found : Entries.get? es k with
        | none => exact .some (.refl inner)
        | some child => exact .some (ih (keys.entry (Entries.mem_of_get? found)))
      · rw [if_neg same]
        simp only [Entries.get?, if_neg same, entries]
        cases found : Entries.get? es other with
        | none => exact .none
        | some child => exact .some (.refl (keys.entry (Entries.mem_of_get? found)))

/-- A layer behind a tree is a write into the tree where nothing masks the path, and nothing where something
does. -/
theorem withDefaults_layer (keys : n.DistinctKeys) (noMap : new.isMap = false) (names : List String) :
    n.withDefaults (layer names new) =
      if n.masks (names.map .name) then n else n.graft names new := by
  induction names generalizing n with
  | nil =>
    rw [show layer [] new = new from rfl, withDefaults_not_isMap n noMap]
    cases n <;> rfl
  | cons k rest ih =>
    rw [List.map_cons]
    cases n with
    | leaf s => exact withDefaults_leaf s _
    | list xs => exact withDefaults_list xs _
    | map es =>
      have missing : Entries.get? ([] : List (String × Node)) k = none := rfl
      have merged := mergedEntries_append_singleton keys.distinct missing (layer rest new)
      rw [List.nil_append, mergedEntries_nil_right] at merged
      rw [layer_cons, withDefaults_maps, merged, masks, graft_cons]
      simp only [entryOrEmpty, entries]
      cases found : Entries.get? es k with
      | none => rfl
      | some child =>
        dsimp only
        rw [ih (keys.entry (Entries.mem_of_get? found))]
        split
        · rw [Entries.put_self found]
        · rfl

/-! ## Two writes -/

/-- Entries under different keys may be put in either order. -/
theorem equal_put_comm {j : String} (keys : (Node.map es).DistinctKeys) (keysX : x.DistinctKeys)
    (keysY : y.DistinctKeys) (differ : k ≠ j) :
    (Node.map (Entries.put (Entries.put es k x) j y)).Equal
      (.map (Entries.put (Entries.put es j y) k x)) := by
  have left := ((keys.put keysX k).put keysY j).distinct
  have right := ((keys.put keysY j).put keysX k).distinct
  refine equal_map_iff.mpr ⟨left, right, fun other => ?_⟩
  rw [Entries.get?_put, Entries.get?_put, Entries.get?_put, Entries.get?_put]
  by_cases isJ : j = other
  · subst isJ
    rw [if_pos rfl, if_neg differ, if_pos rfl]
    exact .some (.refl keysY)
  · rw [if_neg isJ, if_neg isJ]
    by_cases isK : k = other
    · rw [if_pos isK]
      exact .some (.refl keysX)
    · rw [if_neg isK]
      exact (Equal.refl keys).entry other

/-- Writes along names of which none is a prefix of the other may change places. -/
theorem equal_graft_comm (keys : n.DistinctKeys) (keysX : x.DistinctKeys) (keysY : y.DistinctKeys)
    (apart : ¬ names <+: other) (apart' : ¬ other <+: names) :
    ((n.graft names x).graft other y).Equal ((n.graft other y).graft names x) := by
  induction names generalizing n other with
  | nil => exact absurd List.nil_prefix apart
  | cons k rest ih =>
    cases other with
    | nil => exact absurd List.nil_prefix apart'
    | cons j other =>
      have entries_ := distinctKeys_entries keys
      have child := distinctKeys_entryOrEmpty keys
      simp only [graft_cons]
      by_cases same : k = j
      · -- both go on below the same key
        subst same
        simp only [List.cons_prefix_cons, true_and] at apart apart'
        simp only [entryOrEmpty, entries, Entries.get?_put_self, Option.getD_some, Entries.put_put]
        exact (Equal.refl entries_).put k (ih (child k) apart apart')
      · have differ : j ≠ k := Ne.symm same
        simp only [entryOrEmpty, entries, Entries.get?_put_of_ne _ _ same, Entries.get?_put_of_ne _ _ differ]
        exact equal_put_comm entries_ (distinctKeys_graft (child k) keysX rest)
          (distinctKeys_graft (child j) keysY other) same

end LayeredConfig.Node
