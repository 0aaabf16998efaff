import LayeredConfig.Config.Export
import LayeredConfig.Config.Read
import LayeredConfig.Proofs.Computation
import LayeredConfig.Proofs.Node.Rebuild
import Mathlib

/-!
# Secrets in parts of a configuration

A name on the path of a leaf makes it secret. A part of a configuration is a tree of its own, in which the
paths no longer have the names that led to the part. So a part shows a leaf that the whole configuration
hides exactly if the name that makes it secret is one of those (`hideSecrets_part`).
-/

namespace LayeredConfig

namespace Redactor

theorem isSecret_append (r : Redactor) (p q : Path) :
    r.isSecret (p ++ q) = (r.isSecret p || r.isSecret q) := by
  rw [isSecret, isSecret, isSecret, Path.names, Path.names, Path.names, List.filterMap_append,
    List.any_append]

/-- Below a path without a secret name the path of a leaf alone decides. -/
theorem redactLeaf_append {r : Redactor} {p : Path} (plain : r.isSecret p = false) (q : Path)
    (s : Scalar) : r.redactLeaf (p ++ q) s = r.redactLeaf q s := by
  rw [redactLeaf, redactLeaf, isSecret_append, plain, Bool.false_or]

/-- Below a path with a secret name everything is replaced. What the path of a leaf alone makes of it is
the same if that path has a secret name as well, or if the replacement is there already. -/
theorem redactLeaf_append_eq_iff {r : Redactor} {p q : Path} {s : Scalar}
    (secret : r.isSecret p = true) : r.redactLeaf q s = r.redactLeaf (p ++ q) s ↔
      r.isSecret q = true ∨ s = .literal (.string r.replacement) := by
  rw [redactLeaf, redactLeaf, isSecret_append, secret, Bool.true_or, if_pos rfl]
  cases r.isSecret q with
  | true => exact ⟨fun _ => .inl rfl, fun _ => rfl⟩
  | false => exact ⟨.inr, fun same => same.resolve_left nofun⟩

theorem redact_mapped (r : Redactor) (root : Node) :
    Node.Mapped (fun q s t => t = r.redactLeaf q s) .root root (r.redact root) :=
  Node.relabel_mapped r.redactLeaf .root root

theorem get?_redact_leaf (r : Redactor) {n : Node} {q : Path} {s : Scalar}
    (leads : n.get? q = some (.leaf s)) :
    (r.redact n).get? q = some (.leaf (r.redactLeaf q s)) := by
  obtain ⟨t, found, rfl⟩ := (r.redact_mapped n).leaf_of leads
  exact found

end Redactor

namespace Config

variable {c : Config} {path : String} {p : Path} {es : List (String × Node)}

theorem getConfig_eq (parsed : Path.parse path = .ok p) (leads : c.root.get? p = some (.map es)) :
    c.getConfig path = .ok (c.withRoot (.map es)) := by
  have node : c.node? path = .ok (some (p, .map es)) := bind_eq_ok.mpr ⟨p, parsed, by rw [leads]; rfl⟩
  exact bind_eq_ok.mpr ⟨_, bind_eq_ok.mpr ⟨_, node, rfl⟩, rfl⟩

/-- Hiding the secrets of the whole leaves a map where a map is, with the leaves replaced in accordance
with their paths in the whole. -/
theorem get?_redacted (leads : c.root.get? p = some (.map es)) :
    ∃ fs, c.redacted.get? p = some (.map fs) ∧
      Node.Mapped (fun q s t => t = c.redactor.redactLeaf (p ++ q) s) .root (.map es) (.map fs) := by
  have both := (c.redactor.redact_mapped c.root).get? p
  rw [leads] at both
  generalize found : (c.redactor.redact c.root).get? p = there at both
  cases both with
  | @some _ n mapped =>
    match n, mapped with
    | .map fs, mapped =>
      have path : Path.root ++ p = p ++ .root := (List.append_nil p).symm
      rw [path, Node.mapped_append_iff] at mapped
      exact ⟨fs, found, mapped⟩

/-- A part of a configuration with its secrets hidden, and the part of the configuration that was hidden
as a whole. Both replace leaves, the one by their paths in the part and the other by their paths in the
whole. They are the same exactly if the path of the part has no secret name, or if all leaves below are
secret by their own paths or look like it. Then no view of the part shows what the whole hides. -/
theorem hideSecrets_part (parsed : Path.parse path = .ok p)
    (leads : c.root.get? p = some (.map es)) :
    ∃ part hidden, c.getConfig path = .ok part ∧ c.hideSecrets.getConfig path = .ok hidden ∧
      part.hideSecrets.root.leaves .root = ((Node.map es).leaves .root).map
        (fun leaf => (leaf.1, c.redactor.redactLeaf leaf.1 leaf.2)) ∧
      hidden.root.leaves .root = ((Node.map es).leaves .root).map
        (fun leaf => (leaf.1, c.redactor.redactLeaf (p ++ leaf.1) leaf.2)) ∧
      (part.hideSecrets = hidden ↔ c.redactor.isSecret p = false ∨
        ∀ q s, (q, s) ∈ (Node.map es).leaves .root →
          c.redactor.isSecret q = true ∨ s = .literal (.string c.redactor.replacement)) ∧
      (part.hideSecrets = hidden → part.toYaml = hidden.toYamlWithSecrets ∧
        part.toJson = hidden.toJsonWithSecrets ∧ part.display = hidden.root.display) := by
  obtain ⟨fs, found, whole⟩ := get?_redacted leads
  have own := c.redactor.redact_mapped (.map es)
  have taken : c.hideSecrets.getConfig path = .ok (c.withRoot (.map fs)) :=
    getConfig_eq (c := c.hideSecrets) parsed found
  have trees : (c.withRoot (.map es)).hideSecrets = c.withRoot (.map fs) ↔
      c.redactor.redact (.map es) = .map fs :=
    ⟨fun same => congrArg (·.root) same, fun same => congrArg c.withRoot same⟩
  refine ⟨c.withRoot (.map es), c.withRoot (.map fs), getConfig_eq parsed leads, taken,
    own.leaves_eq, whole.leaves_eq, ?_, ?_⟩
  · rw [trees, own.eq_iff whole]
    cases secret : c.redactor.isSecret p with
    | false => exact ⟨fun _ => .inl rfl, fun _ q s _ => (Redactor.redactLeaf_append secret q s).symm⟩
    | true =>
      constructor
      · exact fun agree => .inr fun q s mem =>
          (Redactor.redactLeaf_append_eq_iff secret).mp (agree q s mem)
      · rintro (plain | hidden) q s mem
        · cases plain
        · exact (Redactor.redactLeaf_append_eq_iff secret).mpr (hidden q s mem)
  · intro same
    rw [← same]
    exact ⟨rfl, rfl, rfl⟩

/-- The part is an element of a list, so only the name of the leaf itself can make it secret. -/
theorem hideSecrets_part_element :
    let p : Path := [.name "servers", .index 0]
    let server : List (String × Node) := [("password", .leaf (.literal (.string "a")))]
    let c := empty.withRoot (.map [("servers", .list [.map server])])
    Path.parse "servers[0]" = .ok p ∧ c.root.get? p = some (.map server) ∧
      ∃ part hidden, c.getConfig "servers[0]" = .ok part ∧
        c.hideSecrets.getConfig "servers[0]" = .ok hidden ∧ part.hideSecrets = hidden ∧
        hidden.root.leaves .root = [([.name "password"], .literal (.string "***"))] := by
  intro p server c
  have parsed : Path.parse "servers[0]" = .ok p :=
    Path.parse_text (p := [.name "servers", .index 0]) (by decide)
  have leads : c.root.get? p = some (.map server) := rfl
  have plain : c.redactor.isSecret p = false := by cbv
  have secret : c.redactor.isSecret (p ++ [.name "password"]) = true := by cbv
  obtain ⟨part, hidden, taken, taken', -, leaves, same, -⟩ := hideSecrets_part parsed leads
  refine ⟨parsed, leads, part, hidden, taken, taken', same.mpr (.inl plain), ?_⟩
  rw [leaves]
  show [([Step.name "password"], c.redactor.redactLeaf (p ++ [.name "password"]) _)] = _
  rw [Redactor.redactLeaf, secret]
  rfl

/-- The name that makes the leaf secret leads to the part, so the part shows the leaf. -/
theorem hideSecrets_part_leaks :
    let leaf : Node := .leaf (.literal (.string "a"))
    let c := empty.withRoot (.map [("secrets", .map [("primary", leaf)])])
    ∃ part hidden, c.getConfig "secrets" = .ok part ∧ c.hideSecrets.getConfig "secrets" = .ok hidden ∧
      part.hideSecrets.root.get? [.name "primary"] = some leaf ∧
      hidden.root.get? [.name "primary"] = some (.leaf (.literal (.string "***"))) := by
  intro leaf c
  let p : Path := [.name "secrets"]
  let q : Path := [.name "primary"]
  have parsed : Path.parse "secrets" = .ok p := Path.parse_text (p := [.name "secrets"]) (by decide)
  have leads : c.root.get? p = some (.map [("primary", leaf)]) := rfl
  have plain : c.redactor.isSecret q = false := by cbv
  have secret : c.redactor.isSecret (p ++ q) = true := by cbv
  obtain ⟨fs, found, -⟩ := get?_redacted leads
  refine ⟨_, _, getConfig_eq parsed leads, getConfig_eq (c := c.hideSecrets) parsed found, ?_, ?_⟩
  · have shown := c.redactor.get?_redact_leaf (n := .map [("primary", leaf)]) (q := q) rfl
    rwa [Redactor.redactLeaf, plain] at shown
  · have replaced := c.redactor.get?_redact_leaf (n := c.root) (q := p ++ q) rfl
    rw [Redactor.redactLeaf, secret, Node.get?_append] at replaced
    exact (congrArg (·.bind (Node.get? · q)) found).symm.trans replaced

end Config

end LayeredConfig
