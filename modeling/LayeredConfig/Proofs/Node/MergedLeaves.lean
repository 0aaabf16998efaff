import LayeredConfig.Proofs.Node.Merge
import LayeredConfig.Proofs.Node.Rebuild
import LayeredConfig.Proofs.Resolution.Preparation
import LayeredConfig.Redaction

/-!
# Replacing leaves of layers

Merging never moves a leaf to another path, and which layer has something at a path is a matter of the shapes.
So replacing leaves commutes with merging: mapped layers are merged to a mapped tree
(`Mapped.withDefaults`), and what is done leaf by leaf, such as hiding secrets or reading templates, may be
done before layers are merged or after it (`relabel_withDefaults`).
-/

namespace LayeredConfig.Node

section Mapped

variable {R : Path → Scalar → Scalar → Prop} {p : Path} {a a' b b' : Node}
  {es es' ds ds' : List (String × Node)}

theorem MappedEntries.append (first : MappedEntries R p es es') (second : MappedEntries R p ds ds') :
    MappedEntries R p (es ++ ds) (es' ++ ds') := by
  induction es generalizing es' with
  | nil =>
    match es', first with
    | [], _ => exact second
  | cons entry es ih =>
    match entry, es', first with
    | (k, child), (_, child') :: es', ⟨rfl, here, later⟩ => exact ⟨rfl, here, ih later⟩

/-- The same keys are missing. -/
theorem MappedEntries.lacks (mapped : MappedEntries R p es es') :
    (fun d : String × Node => (Entries.get? es' d.1).isNone) =
      fun d => (Entries.get? es d.1).isNone := by
  funext d
  have found := mapped.get? d.1
  generalize Entries.get? es d.1 = here, Entries.get? es' d.1 = here' at found
  cases found <;> rfl

/-- Which entries are taken may depend on the key. -/
theorem MappedEntries.filter (mapped : MappedEntries R p ds ds') (test : String → Bool) :
    MappedEntries R p (ds.filter fun d => test d.1) (ds'.filter fun d => test d.1) := by
  induction ds generalizing ds' with
  | nil =>
    match ds', mapped with
    | [], _ => exact trivial
  | cons entry ds ih =>
    match entry, ds', mapped with
    | (k, child), (_, child') :: ds', ⟨rfl, here, later⟩ =>
      rw [List.filter_cons, List.filter_cons]
      split
      · exact ⟨rfl, here, ih later⟩
      · exact ih later

theorem MappedEntries.merge (entries : MappedEntries R p es es') (defaults : MappedEntries R p ds ds')
    (each : ∀ k child, (k, child) ∈ es → ∀ child' b b' : Node, Mapped R (p.key k) child child' →
      Mapped R (p.key k) b b' → Mapped R (p.key k) (child.withDefaults b) (child'.withDefaults b')) :
    MappedEntries R p (mergeEntries es ds) (mergeEntries es' ds') := by
  induction es generalizing es' with
  | nil =>
    match es', entries with
    | [], _ => exact trivial
  | cons entry es ih =>
    match entry, es', entries with
    | (k, child), (_, child') :: es', ⟨rfl, here, later⟩ =>
      have others := ih later fun k' other mem => each k' other (List.mem_cons_of_mem _ mem)
      have default := defaults.get? k
      rw [mergeEntries, mergeEntries]
      generalize Entries.get? ds k = d, Entries.get? ds' k = d' at default
      cases default with
      | none => exact ⟨rfl, here, others⟩
      | some below => exact ⟨rfl, each k child List.mem_cons_self _ _ _ here below, others⟩

/-- Merging never moves a leaf, and which tree has something at a path is a matter of the shape. So mapped trees
merge to mapped trees. -/
theorem Mapped.withDefaults (first : Mapped R p a a') (second : Mapped R p b b') :
    Mapped R p (a.withDefaults b) (a'.withDefaults b') := by
  induction a using Node.induction generalizing p a' b b' with
  | leaf s =>
    match a', first with
    | .leaf t, holds =>
      rw [withDefaults_leaf, withDefaults_leaf]
      exact holds
  | list xs _ =>
    match a', first with
    | .list ys, holds =>
      rw [withDefaults_list, withDefaults_list]
      exact holds
  | map es ih =>
    match a', b, b', first, second with
    | .map es', .leaf _, .leaf _, holds, _ => exact holds
    | .map es', .list _, .list _, holds, _ => exact holds
    | .map es', .map ds, .map ds', entries, defaults =>
      rw [withDefaults_maps, withDefaults_maps, mergedEntries, mergedEntries,
        MappedEntries.lacks entries]
      refine MappedEntries.append (MappedEntries.merge entries defaults ?_) ?_
      · exact fun k child mem _ _ _ => ih k child mem
      · exact MappedEntries.filter defaults fun k => (Entries.get? es k).isNone

end Mapped

/-! ## Layers -/

section Layers

variable {p : Path} {a a' b b' : Node}

/-- Layers whose leaves can all be replaced are merged to a tree whose leaves can all be replaced. -/
theorem mapLeaves_withDefaults_ok {ε : Type} {f : Path → Scalar → Except ε Scalar}
    (first : a.mapLeaves f p = .ok a') (second : b.mapLeaves f p = .ok b') :
    (a.withDefaults b).mapLeaves f p = .ok (a'.withDefaults b') :=
  mapLeaves_eq_ok_iff.mpr ((mapLeaves_eq_ok_iff.mp first).withDefaults (mapLeaves_eq_ok_iff.mp second))

open Resolution in
/-- It does not matter whether the leaves of two layers are replaced before they are merged or after it. So
secrets may be hidden at either time, and so may templates be read, if all of them can. -/
theorem relabel_withDefaults (f : Path → Scalar → Scalar) (p : Path) (a b : Node) :
    (a.withDefaults b).relabel f p = (a.relabel f p).withDefaults (b.relabel f p) ∧
      (∀ r : Redactor, r.redact (a.withDefaults b) = (r.redact a).withDefaults (r.redact b)) ∧
      ∀ a' b', a.mapLeaves parseLeaf .root = .ok a' → b.mapLeaves parseLeaf .root = .ok b' →
        (a.withDefaults b).mapLeaves parseLeaf .root = .ok (a'.withDefaults b') := by
  have merged (f : Path → Scalar → Scalar) (p : Path) :
      (a.withDefaults b).relabel f p = (a.relabel f p).withDefaults (b.relabel f p) := by
    have apart := (relabel_mapped f p a).withDefaults (relabel_mapped f p b)
    exact ((relabel_mapped f p _).eq_iff apart).mpr fun _ _ _ => rfl
  exact ⟨merged f p, fun r => merged r.redactLeaf .root, fun a' b' => mapLeaves_withDefaults_ok⟩

open Resolution in
/-- A template masks a map, a list masks a list with another template, and a map takes an entry from below. -/
theorem relabel_withDefaults_templates :
    let text (s : String) : Node := .leaf (.literal (.string s))
    let toX : Node := .leaf (.expression ⟨"${x}", [.reference "x" ["x"]]⟩)
    let a : Node := .map [("t", text "${x}"), ("l", .list [text "a"]), ("m", .map [])]
    let b : Node := .map [("t", .map [("x", text "b")]), ("l", .list [text "${x}"]),
      ("m", .map [("key", text "${x}")])]
    let both : Node := .map [("t", toX), ("l", .list [text "a"]), ("m", .map [("key", toX)])]
    (a.withDefaults b).mapLeaves parseLeaf .root = .ok both ∧
      Redactor.standard.redact (a.withDefaults b) =
        (Redactor.standard.redact a).withDefaults (Redactor.standard.redact b) := by
  intro text toX a b both
  obtain ⟨-, hidden, read⟩ := relabel_withDefaults (fun _ s => s) .root a b
  have first : a.mapLeaves parseLeaf .root =
      .ok (.map [("t", toX), ("l", .list [text "a"]), ("m", .map [])]) := by cbv
  have second : b.mapLeaves parseLeaf .root = .ok (.map [("t", .map [("x", text "b")]),
      ("l", .list [toX]), ("m", .map [("key", toX)])]) := by cbv
  exact ⟨read _ _ first second, hidden .standard⟩

end Layers

end LayeredConfig.Node
