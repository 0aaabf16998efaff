import LayeredConfig.Proofs.Expression
import LayeredConfig.Proofs.Node.Leaves
import LayeredConfig.Proofs.Node.Merge
import LayeredConfig.Proofs.Node.Visits
import Mathlib

/-!
# What is read before references are resolved

`resolveTree` has two stages. In the first one it reads the leaves of the tree as templates, lays the
given values over the result, and reads the leaves of that, which is the scope. `Prepared` says what comes
of it. In the second stage the leaves are resolved, and only there the policy counts.

A tree cannot be read if some leaf of it, or of the given values, holds a text that opens a reference and
is no template. But the leaves of the tree are read twice, once on their own and once in the scope, unless
the given values mask them there. So there is one more case: a leaf that is read as a text which, read
again, is no template. `resolveTree_parse_error_iff` says that there is no other, and
`resolveTree_rejects_text` is a tree whose templates are in order and which is rejected nevertheless.
-/

namespace LayeredConfig

namespace Resolution

variable {root values parsed scope n : Node} {policy : UnresolvedPolicy} {p : Path} {s t : Scalar}
  {e cause : Error}

/-! ## Single leaves -/

theorem parseLeaf_eq_ok_iff : parseLeaf p s = .ok t ↔ s.parse = .ok t :=
  mapError_ok_iff

theorem parseLeaf_eq_error_iff :
    parseLeaf p s = .error e ↔ ∃ cause, s.parse = .error cause ∧ cause.withPath p.text = e :=
  mapError_eq_error_iff

theorem kind_of_parseLeaf_error (failed : parseLeaf p s = .error e) : e.kind = .parse := by
  obtain ⟨cause, rejected, rfl⟩ := parseLeaf_eq_error_iff.mp failed
  obtain ⟨template, -, -, rejected⟩ := Scalar.parse_eq_error_iff.mp rejected
  have kind : cause.kind = .parse := Expression.kind_of_parse_error rejected
  exact kind

theorem kind_of_settle_error (failed : settle policy p s = .error e) :
    e.kind = .unresolvedExpression := by
  cases s with
  | literal v => cases failed
  | expression left =>
    cases policy with
    | fail =>
      cases failed
      rfl
    | unwrap => cases failed

/-! ## The two stages -/

/-- The tree and the given values can be read: `parsed` is the tree that was read, and `scope` is where
references are looked up. -/
structure Prepared (root values parsed scope : Node) : Prop where
  read : root.mapLeaves parseLeaf .root = .ok parsed
  made : scopeOf values parsed = .ok scope

/-- All that is left to do is to resolve the leaves. -/
theorem Prepared.resolveTree_eq (prepared : Prepared root values parsed scope)
    (policy : UnresolvedPolicy) : resolveTree root values policy =
      parsed.mapLeaves (fun p s => settle policy p (resolveScalar scope s)) .root := by
  rw [resolveTree, prepared.read]
  show (scopeOf values parsed >>= _) = _
  rw [prepared.made]
  rfl

theorem resolveTree_eq_ok_iff :
    resolveTree root values policy = .ok n ↔ ∃ parsed scope, Prepared root values parsed scope ∧
      parsed.mapLeaves (fun p s => settle policy p (resolveScalar scope s)) .root = .ok n := by
  constructor
  · intro done
    obtain ⟨parsed, read, done⟩ := bind_eq_ok.mp done
    obtain ⟨scope, made, settled⟩ := bind_eq_ok.mp done
    exact ⟨parsed, scope, ⟨read, made⟩, settled⟩
  · rintro ⟨parsed, scope, prepared, settled⟩
    rw [prepared.resolveTree_eq, settled]

/-- A tree that cannot be read is an error under every policy. -/
theorem prepared_or_error (root values : Node) :
    (∃ parsed scope, Prepared root values parsed scope) ∨
      ∃ e, e.kind = .parse ∧ ∀ policy, resolveTree root values policy = .error e := by
  cases read : root.mapLeaves parseLeaf .root with
  | error e =>
    obtain ⟨_, _, -, failed⟩ := Node.exists_of_mapLeaves_error read
    refine .inr ⟨e, kind_of_parseLeaf_error failed, fun policy => ?_⟩
    exact bind_eq_error.mpr (.inl read)
  | ok parsed =>
    cases made : scopeOf values parsed with
    | error e =>
      obtain ⟨_, _, -, failed⟩ := Node.exists_of_mapLeaves_error made
      refine .inr ⟨e, kind_of_parseLeaf_error failed, fun policy => ?_⟩
      exact bind_eq_error.mpr (.inr ⟨parsed, read, bind_eq_error.mpr (.inl made)⟩)
    | ok scope => exact .inl ⟨parsed, scope, read, made⟩

/-- If the trees can be read, what is wrong is a reference without a value. -/
theorem Prepared.kind_of_error (prepared : Prepared root values parsed scope)
    (failed : resolveTree root values policy = .error e) : e.kind = .unresolvedExpression := by
  rw [prepared.resolveTree_eq] at failed
  obtain ⟨_, _, -, failed⟩ := Node.exists_of_mapLeaves_error failed
  exact kind_of_settle_error failed

/-! ## Leaves that were read -/

theorem leaf_parsed (read : root.mapLeaves parseLeaf .root = .ok parsed)
    (leaf : root.get? p = some (.leaf s)) :
    ∃ once, parsed.get? p = some (.leaf once) ∧ s.parse = .ok once := by
  obtain ⟨once, there, parses⟩ := (Node.mapped_of_mapLeaves_ok read).leaf_of leaf
  exact ⟨once, there, parseLeaf_eq_ok_iff.mp parses⟩

theorem leaf_of_parsed (read : root.mapLeaves parseLeaf .root = .ok parsed)
    (leaf : parsed.get? p = some (.leaf t)) :
    ∃ s, root.get? p = some (.leaf s) ∧ s.parse = .ok t := by
  obtain ⟨s, before, parses⟩ := (Node.mapped_of_mapLeaves_ok read).leaf leaf
  exact ⟨s, before, parseLeaf_eq_ok_iff.mp parses⟩

/-- Reading a leaf gives no other expressions than come from templates. -/
theorem arises_of_parse (arise : ∀ e, s = .expression e → e.Arises) (read : s.parse = .ok t)
    (e : Expression) (same : t = .expression e) : e.Arises := by
  subst same
  rcases Scalar.of_parse_eq_expression read with same | ⟨-, parsed⟩
  · exact arise e same
  · exact .read parsed

/-! ## Texts that are no templates -/

/-- At `p` the tree holds a text that opens a reference and is no template. -/
def RejectedAt (n : Node) (p : Path) (cause : Error) : Prop :=
  ∃ template, n.get? p = some (.leaf (.literal (.string template))) ∧
    Template.opensReference template.toList = true ∧ Expression.parse template = .error cause

/-- At `p` the tree holds a leaf that is read as a text, and this text opens a reference again and is no
template. The given values have nothing in its place. -/
def RejectedAgainAt (root values : Node) (p : Path) (cause : Error) : Prop :=
  ∃ s template, root.get? p = some (.leaf s) ∧ values.masks p = false ∧
    s.parse = .ok (.literal (.string template)) ∧
    Template.opensReference template.toList = true ∧ Expression.parse template = .error cause

theorem rejectedAt_iff :
    RejectedAt n p cause ↔ ∃ s, n.get? p = some (.leaf s) ∧ s.parse = .error cause := by
  constructor
  · rintro ⟨template, leaf, opens, rejected⟩
    exact ⟨_, leaf, Scalar.parse_eq_error_iff.mpr ⟨template, rfl, opens, rejected⟩⟩
  · rintro ⟨s, leaf, rejected⟩
    obtain ⟨template, rfl, opens, rejected⟩ := Scalar.parse_eq_error_iff.mp rejected
    exact ⟨template, leaf, opens, rejected⟩

theorem rejectedAgainAt_iff :
    RejectedAgainAt root values p cause ↔ ∃ s t, root.get? p = some (.leaf s) ∧
      values.masks p = false ∧ s.parse = .ok t ∧ t.parse = .error cause := by
  constructor
  · rintro ⟨s, template, leaf, seen, read, opens, rejected⟩
    exact ⟨s, _, leaf, seen, read, Scalar.parse_eq_error_iff.mpr ⟨template, rfl, opens, rejected⟩⟩
  · rintro ⟨s, t, leaf, seen, read, rejected⟩
    obtain ⟨template, rfl, opens, rejected⟩ := Scalar.parse_eq_error_iff.mp rejected
    exact ⟨s, template, leaf, seen, read, opens, rejected⟩

theorem mapLeaves_error_of_rejected (rejected : RejectedAt n p cause) :
    ∃ e, n.mapLeaves parseLeaf .root = .error e := by
  obtain ⟨s, leaf, rejected⟩ := rejectedAt_iff.mp rejected
  have failed : parseLeaf p s = .error (cause.withPath p.text) :=
    parseLeaf_eq_error_iff.mpr ⟨cause, rejected, rfl⟩
  exact Node.mapLeaves_error_of_leaf (Node.mem_leaves_of_get? .root leaf) failed

/-- If a tree cannot be read, a leaf of it is rejected, and the error names its path. -/
theorem rejected_of_mapLeaves_error (keys : n.DistinctKeys)
    (failed : n.mapLeaves parseLeaf .root = .error e) :
    ∃ p cause, RejectedAt n p cause ∧ e = cause.withPath p.text := by
  obtain ⟨p, s, mem, failed⟩ := Node.exists_of_mapLeaves_error failed
  obtain ⟨cause, rejected, rfl⟩ := parseLeaf_eq_error_iff.mp failed
  exact ⟨p, cause, rejectedAt_iff.mpr ⟨s, (Node.mem_leaves_iff keys).mp mem, rejected⟩, rfl⟩

/-- In the scope, a text is rejected that is given, or one that the tree was read to. -/
theorem rejectedAt_withDefaults_iff (read : root.mapLeaves parseLeaf .root = .ok parsed) :
    RejectedAt (values.withDefaults parsed) p cause ↔
      RejectedAt values p cause ∨ RejectedAgainAt root values p cause := by
  rw [rejectedAt_iff, rejectedAt_iff, rejectedAgainAt_iff]
  simp only [Node.get?_withDefaults_leaf_iff]
  constructor
  · rintro ⟨t, here | ⟨seen, there⟩, rejected⟩
    · exact .inl ⟨t, here, rejected⟩
    · obtain ⟨s, leaf, once⟩ := leaf_of_parsed read there
      exact .inr ⟨s, t, leaf, seen, once, rejected⟩
  · rintro (⟨s, leaf, rejected⟩ | ⟨s, t, leaf, seen, once, rejected⟩)
    · exact ⟨s, .inl leaf, rejected⟩
    · obtain ⟨t', there, once'⟩ := leaf_parsed read leaf
      cases once.symm.trans once'
      exact ⟨t, .inr ⟨seen, there⟩, rejected⟩

/-- Trees with a text that is rejected are not prepared. -/
theorem Prepared.not_rejected (prepared : Prepared root values parsed scope) :
    ¬ RejectedAt root p cause ∧ ¬ RejectedAt values p cause ∧
      ¬ RejectedAgainAt root values p cause := by
  have inScope : ¬ RejectedAt (values.withDefaults parsed) p cause := by
    intro rejected
    obtain ⟨e, failed⟩ := mapLeaves_error_of_rejected rejected
    cases failed.symm.trans prepared.made
  rw [rejectedAt_withDefaults_iff prepared.read, not_or] at inScope
  refine ⟨fun rejected => ?_, inScope⟩
  obtain ⟨e, failed⟩ := mapLeaves_error_of_rejected rejected
  cases failed.symm.trans prepared.read

/-- A parse error names the path of a leaf that is rejected. -/
theorem rejected_of_error (keys : root.DistinctKeys) (keys' : values.DistinctKeys)
    (failed : resolveTree root values policy = .error e) (kind : e.kind = .parse) :
    ∃ p cause, (RejectedAt root p cause ∨ RejectedAt values p cause ∨
      RejectedAgainAt root values p cause) ∧ e = cause.withPath p.text := by
  rcases bind_eq_error.mp failed with first | ⟨parsed, read, later⟩
  · obtain ⟨p, cause, rejected, path⟩ := rejected_of_mapLeaves_error keys first
    exact ⟨p, cause, .inl rejected, path⟩
  · rcases bind_eq_error.mp later with second | ⟨scope, made, -⟩
    · -- a listed leaf of the scope is the one at its path only because keys are distinct there too
      have distinct := keys'.withDefaults ((Node.mapped_of_mapLeaves_ok read).distinctKeys keys)
      obtain ⟨p, cause, rejected, path⟩ := rejected_of_mapLeaves_error distinct second
      exact ⟨p, cause, .inr ((rejectedAt_withDefaults_iff read).mp rejected), path⟩
    · -- both trees can be read, so it is no parse error
      have other := Prepared.kind_of_error ⟨read, made⟩ failed
      rw [other] at kind
      cases kind

/-! ## Parse errors -/

/-- Resolving a tree fails with a parse error exactly if a text in the tree or in the given values is
rejected, or a text that the tree was read to is. The error names the path of such a text.

So the first alone is what decides, exactly if no text is rejected only when it is read again. -/
theorem resolveTree_parse_error_iff (keys : root.DistinctKeys) (keys' : values.DistinctKeys)
    (policy : UnresolvedPolicy) :
    let fails := ∃ e, resolveTree root values policy = .error e ∧ e.kind = .parse
    let rejected := ∃ p cause, RejectedAt root p cause ∨ RejectedAt values p cause
    let again := ∃ p cause, RejectedAgainAt root values p cause
    (fails ↔ rejected ∨ again) ∧ ((fails ↔ rejected) ↔ (again → rejected)) ∧
      ∀ e, resolveTree root values policy = .error e → e.kind = .parse →
        ∃ p cause, (RejectedAt root p cause ∨ RejectedAt values p cause ∨
          RejectedAgainAt root values p cause) ∧ e = cause.withPath p.text := by
  intro fails rejected again
  have exact_ : fails ↔ rejected ∨ again := by
    constructor
    · rintro ⟨e, failed, kind⟩
      obtain ⟨p, cause, inRoot | inValues | later, -⟩ := rejected_of_error keys keys' failed kind
      · exact .inl ⟨p, cause, .inl inRoot⟩
      · exact .inl ⟨p, cause, .inr inValues⟩
      · exact .inr ⟨p, cause, later⟩
    · intro some_
      rcases prepared_or_error root values with ⟨parsed, scope, prepared⟩ | ⟨e, kind, failed⟩
      · rcases some_ with ⟨p, cause, inRoot | inValues⟩ | ⟨p, cause, later⟩
        · exact absurd inRoot prepared.not_rejected.1
        · exact absurd inValues prepared.not_rejected.2.1
        · exact absurd later prepared.not_rejected.2.2
      · exact ⟨e, failed policy, kind⟩
  refine ⟨exact_, ?_, fun e failed kind => rejected_of_error keys keys' failed kind⟩
  rw [exact_]
  exact or_iff_left_iff_imp

/-- The given values have other entries in the map of the text, so they do not mask it. -/
theorem resolveTree_parse_error_unmasked :
    let root : Node := .map [("m", .map [("a", .leaf (.literal (.string "$\\\x7bx$\x7b\x7d")))])]
    let values : Node := .map [("m", .map [("b", .leaf (.literal (.bool true)))])]
    root.DistinctKeys ∧ values.DistinctKeys ∧
      ∃ e, resolveTree root values .fail = .error e ∧ e.kind = .parse := by
  intro root values
  have keys : ∀ k k' s, (Node.map [(k, .map [(k', .leaf s)])]).DistinctKeys := by
    intro k k' s
    refine .map (List.nodup_singleton k) fun _ _ mem => ?_
    cases List.mem_singleton.mp mem
    refine .map (List.nodup_singleton k') fun _ _ mem => ?_
    cases List.mem_singleton.mp mem
    exact .leaf s
  have again : RejectedAgainAt root values [.name "m", .name "a"]
      (.parse "Unterminated expression, expected '\x7d' in template '$\x7bx'") :=
    ⟨_, "$\x7bx", rfl, rfl, by cbv, by cbv, by cbv⟩
  refine ⟨keys _ _ _, keys _ _ _, ?_⟩
  exact (resolveTree_parse_error_iff (keys _ _ _) (keys _ _ _) .fail).1.mpr (.inr ⟨_, _, again⟩)

/-- The only text of this tree is a template in which a brace has lost its meaning, and it is read as a
text. That text is rejected when the leaves of the scope are read. -/
theorem resolveTree_rejects_text :
    let root : Node := .map [("a", .leaf (.literal (.string "$\\\x7bx$\x7b\x7d")))]
    (Scalar.literal (.string "$\\\x7bx$\x7b\x7d")).parse = .ok (.literal (.string "$\x7bx")) ∧
    (¬ ∃ p cause, RejectedAt root p cause ∨ RejectedAt .empty p cause) ∧
    ∀ policy, ∃ e, resolveTree root .empty policy = .error e ∧ e.kind = .parse := by
  intro root
  have read : (Scalar.literal (.string "$\\\x7bx$\x7b\x7d")).parse =
      .ok (.literal (.string "$\x7bx")) := by cbv
  refine ⟨read, ?_, fun policy => ?_⟩
  · rintro ⟨p, cause, rejected | rejected⟩
    · obtain ⟨s, leaf, rejected⟩ := rejectedAt_iff.mp rejected
      have mem := Node.mem_leaves_of_get? .root leaf
      have only : s = .literal (.string "$\\\x7bx$\x7b\x7d") := by
        simp only [root, Node.leaves, Node.leavesOfEntries, List.append_nil, List.mem_singleton] at mem
        exact (Prod.mk.inj mem).2
      rw [only, read] at rejected
      cases rejected
    · obtain ⟨s, leaf, -⟩ := rejectedAt_iff.mp rejected
      have mem := Node.mem_leaves_of_get? .root leaf
      simp [Node.empty, Node.leaves, Node.leavesOfEntries] at mem
  · have failed : resolveTree root .empty policy = .error ((Error.parse
        "Unterminated expression, expected '\x7d' in template '$\x7bx'").withPath "a") := by
      cases policy <;> cbv
    exact ⟨_, failed, rfl⟩

end Resolution

end LayeredConfig
