import LayeredConfig.Config.Edit
import LayeredConfig.Proofs.Computation
import LayeredConfig.Proofs.Node.Merge

/-!
# Layers

Configurations are merged one after the other, each in front of what was merged so far. What is found at
a path is what the last layer that decides the path has there (`get?_layered`).

A layer leaves a path undecided if the path leads by names through its maps to one that lacks the next
name. Lists are never merged, so a layer that has a list on the way decides the path, also where the
list has a map that lacks the next name (`layered_inside_list`).
-/

namespace LayeredConfig

/-- All members of a list have a property, or there is a last one that has not. -/
theorem all_or_last {α : Type} (P : α → Prop) (xs : List α) : (∀ x ∈ xs, P x) ∨
    ∃ before x after, xs = before ++ x :: after ∧ ¬ P x ∧ ∀ y ∈ after, P y := by
  induction xs with
  | nil => exact .inl nofun
  | cons first rest ih =>
    rcases ih with all | ⟨before, x, after, rfl, last⟩
    · rcases Classical.em (P first) with holds | fails
      · exact .inl (List.forall_mem_cons.mpr ⟨holds, all⟩)
      · exact .inr ⟨[], first, rest, rfl, fails, all⟩
    · exact .inr ⟨first :: before, x, after, rfl, last⟩

namespace Node

variable {n other : Node} {es ds : List (String × Node)} {p way : Path} {step : Step} {k : String}

/-! ## Undecided paths -/

/-- Beyond `way` the path goes on to a key that the map there lacks. -/
def LacksAfter (n : Node) (way p : Path) : Prop :=
  ∃ k rest es, p = way ++ .name k :: rest ∧ n.get? way = some (.map es) ∧ Entries.get? es k = none

/-- The path leads by names to a map that lacks the next name. -/
def Undecided (n : Node) (p : Path) : Prop :=
  ∃ way : Path, (∀ step ∈ way, step.isName) ∧ n.LacksAfter way p

theorem undecided_name_iff : (Node.map es).Undecided (.name k :: p) ↔
    ∀ child, Entries.get? es k = some child → child.Undecided p := by
  constructor
  · rintro ⟨way, names, k', rest, fs, path, leads, missing⟩ child found
    cases way with
    | nil =>
      cases path
      cases leads
      rw [found] at missing
      cases missing
    | cons step way =>
      cases path
      rw [get?_name, found] at leads
      exact ⟨way, (List.forall_mem_cons.mp names).2, k', rest, fs, rfl, leads, missing⟩
  · intro below
    cases found : Entries.get? es k with
    | none => exact ⟨[], nofun, k, p, es, rfl, rfl, found⟩
    | some child =>
      obtain ⟨way, names, k', rest, fs, rfl, leads, missing⟩ := below child found
      refine ⟨.name k :: way, List.forall_mem_cons.mpr ⟨rfl, names⟩, k', rest, fs, rfl, ?_, missing⟩
      rw [get?_name, found]
      exact leads

/-- A path is undecided in a tree exactly if nothing there masks what defaults have at it. -/
theorem undecided_iff : n.Undecided p ↔ n.masks p = false := by
  induction p generalizing n with
  | nil =>
    constructor
    · rintro ⟨way, -, k, rest, es, path, -⟩
      exact absurd path.symm (List.append_ne_nil_of_right_ne_nil way (List.cons_ne_nil _ _))
    · intro unmasked
      cases n <;> cases unmasked
  | cons step rest ih =>
    match n, step with
    | .map es, .name k =>
      rw [undecided_name_iff, masks]
      cases Entries.get? es k with
      | none => exact ⟨fun _ => rfl, fun _ _ same => absurd same.symm (Option.some_ne_none _)⟩
      | some child => exact ⟨fun below => ih.mp (below child rfl), fun unmasked _ same =>
          Option.some.inj same ▸ ih.mpr unmasked⟩
    | .map es, .index i =>
      refine ⟨?_, fun unmasked => Bool.noConfusion unmasked⟩
      rintro ⟨_ | ⟨step, way⟩, names, k, rest, fs, path, leads, -⟩
      · cases path
      · cases path
        cases leads
    | .list xs, step =>
      refine ⟨?_, fun unmasked => Bool.noConfusion unmasked⟩
      rintro ⟨_ | ⟨step', way⟩, names, k, rest, fs, path, leads, -⟩
      · cases leads
      · -- a list is left by an index, which is no name
        cases step' with
        | name k' => cases leads
        | index i => cases (List.forall_mem_cons.mp names).1
    | .leaf s, step =>
      refine ⟨?_, fun unmasked => Bool.noConfusion unmasked⟩
      rintro ⟨_ | ⟨step', way⟩, -, k, rest, fs, -, leads, -⟩
      · cases leads
      · rw [get?_leaf_cons] at leads
        cases leads

theorem LacksAfter.get?_eq_none (lacks : n.LacksAfter way p) : n.get? p = none := by
  obtain ⟨k, rest, es, rfl, leads, missing⟩ := lacks
  rw [get?_append, leads, Option.bind_some, get?_name, missing]
  rfl

theorem get?_of_undecided (undecided : n.Undecided p) : n.get? p = none := by
  obtain ⟨way, -, lacks⟩ := undecided
  exact lacks.get?_eq_none

/-! ## One layer in front of another tree -/

/-- At an undecided path the tree behind shows through. -/
theorem get?_withDefaults_of_undecided (undecided : n.Undecided p) :
    (n.withDefaults other).get? p = other.get? p := by
  induction p generalizing n other with
  | nil =>
    rw [undecided_iff] at undecided
    cases n <;> cases undecided
  | cons step rest ih =>
    have missing := get?_of_undecided undecided
    have unmasked := undecided_iff.mp undecided
    match n, step, other with
    | .leaf s, _, _ => cases unmasked
    | .list xs, _, _ => cases unmasked
    | .map es, .index i, _ => cases unmasked
    | .map es, .name k, .leaf s => exact missing
    | .map es, .name k, .list xs => exact missing
    | .map es, .name k, .map ds =>
      rw [withDefaults_maps, get?_name, get?_name, get?_mergedEntries]
      rw [get?_name] at missing
      have below := undecided_name_iff.mp undecided
      cases here : Entries.get? es k with
      | none => rfl
      | some child =>
        rw [here] at missing
        cases Entries.get? ds k with
        | none => exact missing
        | some default => exact ih (below child here)

/-- What is found where something is looked for in the merged tree, if the layer in front decides. Only
maps are filled up. -/
theorem get?_withDefaults_of_decided (decided : ¬ n.Undecided p) :
    (n.withDefaults other).get? p = n.get? p ∨
      ∃ es fs, n.get? p = some (.map es) ∧ (n.withDefaults other).get? p = some (.map fs) := by
  induction p generalizing n other with
  | nil =>
    cases n with
    | leaf s => exact .inl (by rw [withDefaults_leaf])
    | list xs => exact .inl (by rw [withDefaults_list])
    | map es =>
      obtain same | ⟨ds, rfl, merged⟩ := withDefaults_map es other
      · exact .inl (by rw [same])
      · exact .inr ⟨es, _, rfl, by rw [merged, get?_nil]⟩
  | cons step rest ih =>
    match n, step with
    | .leaf s, _ => exact .inl (by rw [withDefaults_leaf])
    | .list xs, _ => exact .inl (by rw [withDefaults_list])
    | .map es, .index i =>
      obtain same | ⟨ds, rfl, merged⟩ := withDefaults_map es other
      · exact .inl (by rw [same])
      · exact .inl (by rw [merged]; rfl)
    | .map es, .name k =>
      obtain same | ⟨ds, rfl, merged⟩ := withDefaults_map es other
      · exact .inl (by rw [same])
      · rw [merged, get?_name, get?_name, get?_mergedEntries]
        rw [undecided_name_iff] at decided
        push Not at decided
        obtain ⟨child, here, decided⟩ := decided
        rw [here]
        cases Entries.get? ds k with
        | none => exact .inl rfl
        | some default => exact ih decided

/-! ## Any number of layers -/

/-- The trees merged one after the other, each in front of what was merged so far. -/
def layered (first : Node) (rest : List Node) : Node :=
  rest.foldl (fun merged layer => layer.withDefaults merged) first

theorem layered_append (first : Node) (older newer : List Node) :
    layered first (older ++ newer) = layered (layered first older) newer :=
  List.foldl_append

theorem get?_layered_of_undecided {newer : List Node} (undecided : ∀ layer ∈ newer, layer.Undecided p) :
    (layered n newer).get? p = n.get? p := by
  induction newer generalizing n with
  | nil => rfl
  | cons layer newer ih =>
    obtain ⟨here, later⟩ := List.forall_mem_cons.mp undecided
    calc
      (layered n (layer :: newer)).get? p = (layer.withDefaults n).get? p := ih later
      _ = n.get? p := get?_withDefaults_of_undecided here

/-- The layers up to one that decides, and undecided ones after it. -/
theorem get?_layered_of_decided {first layer : Node} {rest older newer : List Node}
    (layers : first :: rest = older ++ layer :: newer) (decided : ¬ layer.Undecided p)
    (undecided : ∀ later ∈ newer, later.Undecided p) :
    (layered first rest).get? p = layer.get? p ∨
      ∃ es fs, layer.get? p = some (.map es) ∧ (layered first rest).get? p = some (.map fs) := by
  cases older with
  | nil =>
    cases layers
    exact .inl (get?_layered_of_undecided undecided)
  | cons oldest older =>
    rw [List.cons_append] at layers
    obtain ⟨rfl, rfl⟩ := List.cons.inj layers
    have merged : layered first (older ++ layer :: newer) =
        layered (layer.withDefaults (layered first older)) newer := layered_append first older _
    rw [merged, get?_layered_of_undecided undecided]
    exact get?_withDefaults_of_decided decided

end Node

/-! ## Layers of configurations -/

namespace Config

theorem root_foldl_withValues (first : Config) (rest : List Config) :
    (rest.foldl withValues first).root = first.root.layered (rest.map (·.root)) := by
  induction rest generalizing first with
  | nil => rfl
  | cons layer rest ih => exact ih (first.withValues layer)

theorem putAll_eq {c : Config} {v : Value} {root : Node} (made : v.toRoot = .ok root) :
    c.putAll v = .ok (c.withRoot (root.withDefaults c.root)) := by
  rw [putAll, made]
  rfl

/-- Merging values is merging the trees that they make. -/
theorem foldlM_putAll {values : List Value} {roots : List Node} (first : Config)
    (made : List.Forall₂ (fun v root => v.toRoot = .ok root) values roots) :
    values.foldlM putAll first = .ok (first.withRoot (first.root.layered roots)) := by
  induction made generalizing first with
  | nil => rfl
  | cons here _ ih =>
    rw [List.foldlM_cons, putAll_eq here]
    exact ih _

section Layers

variable {first layer : Config} {rest older newer : List Config} {p : Path}

theorem get?_foldl_of_undecided (undecided : ∀ layer ∈ rest, layer.root.Undecided p) :
    (rest.foldl withValues first).root.get? p = first.root.get? p := by
  rw [root_foldl_withValues]
  exact Node.get?_layered_of_undecided (List.forall_mem_map.mpr undecided)

theorem get?_foldl_of_decided (layers : first :: rest = older ++ layer :: newer)
    (decided : ¬ layer.root.Undecided p) (undecided : ∀ later ∈ newer, later.root.Undecided p) :
    (rest.foldl withValues first).root.get? p = layer.root.get? p ∨
      ∃ es fs, layer.root.get? p = some (.map es) ∧
        (rest.foldl withValues first).root.get? p = some (.map fs) := by
  rw [root_foldl_withValues]
  have roots := congrArg (List.map (·.root)) layers
  rw [List.map_append, List.map_cons, List.map_cons] at roots
  exact Node.get?_layered_of_decided roots decided (List.forall_mem_map.mpr undecided)

theorem get?_eq_none_of_undecided (undecided : ∀ layer ∈ first :: rest, layer.root.Undecided p) :
    (rest.foldl withValues first).root.get? p = none := by
  obtain ⟨here, later⟩ := List.forall_mem_cons.mp undecided
  exact (get?_foldl_of_undecided later).trans (Node.get?_of_undecided here)

/-- A leaf stands in the last layer that decides its path. -/
theorem exists_deciding_of_leaf {s : Scalar}
    (found : (rest.foldl withValues first).root.get? p = some (.leaf s)) :
    ∃ older layer newer, first :: rest = older ++ layer :: newer ∧
      (∀ later ∈ newer, later.root.Undecided p) ∧ layer.root.get? p = some (.leaf s) := by
  rcases all_or_last (fun layer : Config => layer.root.Undecided p) (first :: rest) with
    all | ⟨older, layer, newer, layers, decided, undecided⟩
  · rw [get?_eq_none_of_undecided all] at found
    cases found
  · refine ⟨older, layer, newer, layers, undecided, ?_⟩
    rcases get?_foldl_of_decided layers decided undecided with same | ⟨_, fs, -, isMap⟩
    · exact same.symm.trans found
    · cases isMap.symm.trans found

/-- Layers are merged so that the last one that decides a path wins. If no layer decides the path, nothing
is there. Otherwise what the last deciding layer has at the path is there, a leaf, a list or nothing, and
a map if it has a map; so every leaf comes from the last layer that decides its path. -/
theorem get?_layered (first : Config) (rest : List Config) (p : Path) :
    let merged := rest.foldl withValues first
    ((∀ layer ∈ first :: rest, layer.root.Undecided p) → merged.root.get? p = none) ∧
    (∀ older layer newer, first :: rest = older ++ layer :: newer → ¬ layer.root.Undecided p →
      (∀ later ∈ newer, later.root.Undecided p) →
      ((∀ es, layer.root.get? p ≠ some (.map es)) → merged.root.get? p = layer.root.get? p) ∧
      ∀ es, layer.root.get? p = some (.map es) → ∃ fs, merged.root.get? p = some (.map fs)) ∧
    (∀ s, merged.root.get? p = some (.leaf s) → ∃ older layer newer,
      first :: rest = older ++ layer :: newer ∧ (∀ later ∈ newer, later.root.Undecided p) ∧
      layer.root.get? p = some (.leaf s)) ∧
    ∀ values, List.Forall₂ (fun v layer => v.toRoot = .ok layer.root) values rest →
      ∃ c, values.foldlM putAll first = .ok c ∧ c.root = merged.root := by
  intro merged
  refine ⟨get?_eq_none_of_undecided, fun older layer newer layers decided undecided => ⟨?_, ?_⟩,
    fun s found => exists_deciding_of_leaf found, ?_⟩
  · intro noMap
    rcases get?_foldl_of_decided layers decided undecided with same | ⟨es, _, isMap, -⟩
    · exact same
    · exact absurd isMap (noMap es)
  · intro es isMap
    rcases get?_foldl_of_decided layers decided undecided with same | ⟨_, fs, -, found⟩
    · exact ⟨es, same.trans isMap⟩
    · exact ⟨fs, found⟩
  · intro values made
    refine ⟨_, foldlM_putAll first (List.forall₂_map_right_iff.mpr made), ?_⟩
    exact (root_foldl_withValues first rest).symm

/-- The last layer has a list with a map that lacks the key, and the first layer has a leaf there. Lists
are not merged, so the leaf is hidden all the same. -/
theorem layered_inside_list :
    let one : Node := .leaf (.literal (.integer 1))
    let first := empty.withRoot (.map [("a", .list [.map [("c", one)]])])
    let last := empty.withRoot (.map [("a", .list [.map [("b", one)]])])
    let p : Path := [.name "a", .index 0, .name "c"]
    (∃ way, last.root.LacksAfter way p) ∧ (¬ ∃ way, first.root.LacksAfter way p) ∧
      first.root.get? p = some one ∧ (first.withValues last).root.get? p = none := by
  intro one first last p
  have found : first.root.get? p = some one := rfl
  refine ⟨⟨[.name "a", .index 0], "c", [], [("b", one)], rfl, rfl, rfl⟩, ?_, found, rfl⟩
  rintro ⟨way, lacks⟩
  cases found.symm.trans lacks.get?_eq_none

end Layers

end Config

end LayeredConfig
