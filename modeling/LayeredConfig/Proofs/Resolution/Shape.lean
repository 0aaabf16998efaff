import LayeredConfig.Proofs.Resolution.Preparation
import LayeredConfig.Reading
import Mathlib

/-!
# What resolution leaves alone

The leaves of a tree are replaced twice, first by what they are read as and then by what that is resolved
to. The given values are merged into the scope only. So the result has the shape of the tree, and a leaf
that does not open a reference stays as it is (`resolveTree_shape`).
-/

namespace LayeredConfig

namespace Resolution

variable {root values parsed scope n : Node} {policy : UnresolvedPolicy} {p : Path} {s t u : Scalar}

/-- A literal, unless it is a text that opens a reference. -/
def IsPlain (s : Scalar) : Prop :=
  ∃ v, s = .literal v ∧ ∀ text, v = .string text → Template.opensReference text.toList = false

/-- What may become of a leaf: a literal, and the same one if it is plain. -/
def Settled (_p : Path) (s t : Scalar) : Prop :=
  (∃ v, t = .literal v) ∧ (IsPlain s → t = s)

theorem IsPlain.parse_eq (plain : IsPlain s) : s.parse = .ok s := by
  obtain ⟨v, rfl, notTemplate⟩ := plain
  refine Scalar.parse_of_plain fun text same => ?_
  exact notTemplate text (Scalar.literal.inj same)

theorem literal_of_settle (settled : settle policy p s = .ok t) :
    (∃ v, t = .literal v) ∧ ∀ v, s = .literal v → t = s := by
  cases s with
  | literal v =>
    cases settled
    exact ⟨⟨v, rfl⟩, fun _ _ => rfl⟩
  | expression e =>
    cases policy with
    | fail => cases settled
    | unwrap =>
      cases settled
      exact ⟨⟨_, rfl⟩, nofun⟩

theorem settled_of_stages (read : parseLeaf p s = .ok t)
    (settled : settle policy p (resolveScalar scope t) = .ok u) : Settled p s u := by
  obtain ⟨literal, unchanged⟩ := literal_of_settle settled
  refine ⟨literal, fun plain => ?_⟩
  -- a plain leaf is read as itself, and as a literal it is not resolved
  have same : t = s := by
    have itself := plain.parse_eq.symm.trans (parseLeaf_eq_ok_iff.mp read)
    exact (Except.ok.inj itself).symm
  subst same
  obtain ⟨v, rfl, -⟩ := plain
  exact unchanged v rfl

/-- A tree that is resolved has the shape of the tree that it was: containers of the same kinds, with the
same keys in the same order and lists of the same lengths, and leaves at the same paths. Leaves that do
not open a reference are the same, no expression is left, and so every leaf can be read as a text. -/
theorem resolveTree_shape (done : resolveTree root values policy = .ok n) :
    Node.Mapped Settled .root root n ∧
      (n.leaves .root).map Prod.fst = (root.leaves .root).map Prod.fst ∧
      ∀ p s, (p, s) ∈ n.leaves .root → s.isExpression = false ∧
        ∀ parsers : Registry, parsers.read p .string (.leaf s) = .ok s.display := by
  obtain ⟨parsed, scope, prepared, settled⟩ := resolveTree_eq_ok_iff.mp done
  have first := Node.mapped_of_mapLeaves_ok prepared.read
  have second := Node.mapped_of_mapLeaves_ok settled
  have mapped : Node.Mapped Settled .root root n := by
    refine Node.Mapped.trans ?_ first second
    exact fun p s t u read settled => settled_of_stages read settled
  refine ⟨mapped, mapped.paths, fun p s mem => ?_⟩
  obtain ⟨_, -, ⟨v, rfl⟩, -⟩ := mapped.mem_leaves mem
  exact ⟨rfl, fun parsers => rfl⟩

/-- The given values have other entries, and a number where the tree has a float that is not a number. -/
theorem resolveTree_shape_masked :
    let nan : Node := .leaf (.literal (.float ⟨0x7ff8000000000001⟩))
    let root : Node := .map [("f", nan), ("l", .list [.leaf (.literal (.string "${v}")), .map []])]
    let values : Node := .map [("v", .leaf (.literal (.integer 7))),
      ("f", .leaf (.literal (.integer 1))), ("l", .map [("k", nan)])]
    ∃ n, resolveTree root values .fail = .ok n ∧ Node.Mapped Settled .root root n ∧
      (n.leaves .root).map Prod.fst = [[.name "f"], [.name "l", .index 0]] ∧
      n.get? [.name "f"] = some nan ∧ n.get? [.name "l", .index 1] = some (.map []) ∧
      ∀ p s, (p, s) ∈ n.leaves .root → s.isExpression = false := by
  intro nan root values
  let toV : Scalar := .expression ⟨"${v}", [.reference "v" ["v"]]⟩
  have read : root.mapLeaves parseLeaf .root =
      .ok (.map [("f", nan), ("l", .list [.leaf toV, .map []])]) := by cbv
  have made : scopeOf values (.map [("f", nan), ("l", .list [.leaf toV, .map []])]) = .ok values := by
    cbv
  have done : resolveTree root values .fail =
      .ok (.map [("f", nan), ("l", .list [.leaf (.literal (.integer 7)), .map []])]) := by
    rw [Prepared.resolveTree_eq ⟨read, made⟩]
    cbv
  obtain ⟨mapped, paths, leaves⟩ := resolveTree_shape done
  exact ⟨_, done, mapped, paths.trans rfl, rfl, rfl, fun p s mem => (leaves p s mem).1⟩

end Resolution

end LayeredConfig
