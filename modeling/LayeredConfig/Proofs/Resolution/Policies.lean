import LayeredConfig.Proofs.Resolution.Lookup
import LayeredConfig.Proofs.Resolution.Preparation
import Mathlib

/-!
# What the policies have in common

The policies differ only on leaves that stay expressions. `resolveTree_policies` compares the two runs on
the same trees: they fail with the same parse error, or keeping templates succeeds, and then failing
succeeds with the same tree or names the first leaf that stays an expression.

Which leaves these are is a matter of the scope alone. `Unresolved` and `Absent` say, rule by rule, when an
expression stays one and when a reference has no value; `unresolved_iff` and `absent_iff` tie them to the
recursion with the chain.
-/

namespace LayeredConfig

namespace Resolution

variable {root values parsed scope n : Node} {chain : Chain} {reference : String} {e : Expression}
  {p : Path} {s t : Scalar} {policy : UnresolvedPolicy}

/-! ## Expressions that stay expressions -/

mutual

/-- The expression stays one while the templates on the chain are being resolved: in one of its
references, the only alternative has no value. -/
inductive Unresolved (scope : Node) : Chain → Expression → Prop
  | only {chain : Chain} {e : Expression} {source reference : String} :
      .reference source [reference] ∈ e.segments → Absent scope chain reference →
      Unresolved scope chain e

/-- The path text has no value while the templates on the chain are being resolved. -/
inductive Absent (scope : Node) : Chain → String → Prop
  /-- It is no path. -/
  | unreadable {chain : Chain} {reference : String} {error : Error} :
      Path.parse reference = .error error → Absent scope chain reference
  /-- It is the path of the root. -/
  | root {chain : Chain} {reference : String} :
      Path.parse reference = .ok .root → Absent scope chain reference
  /-- There is no leaf at the path. -/
  | noLeaf {chain : Chain} {reference : String} {path : Path} :
      Path.parse reference = .ok path → (∀ s, scope.get? path ≠ some (.leaf s)) →
      Absent scope chain reference
  /-- The leaf closes a cycle. -/
  | cycle {chain : Chain} {reference : String} {e : Expression} :
      leafAt? scope reference = some (.expression e) → e.template ∈ chain →
      Absent scope chain reference
  /-- The leaf stays an expression. -/
  | unresolved {chain : Chain} {reference : String} {e : Expression} :
      leafAt? scope reference = some (.expression e) → Unresolved scope (chain.enter e) e →
      Absent scope chain reference

end

/-- All references of the expressions in a scope have alternatives. -/
def WellFormedScope (scope : Node) : Prop :=
  ∀ reference e, leafAt? scope reference = some (.expression e) → e.WellFormed

/-- A path text without a value is absent by one of the rules. -/
theorem absent_of_lookup (wf : WellFormedScope scope) (noValue : lookup scope chain reference = none) :
    Absent scope chain reference := by
  induction chain, reference using lookup_induction scope with
  | none chain reference found =>
    rcases leafAt?_eq_none_iff.mp found with ⟨error, unreadable⟩ | root | ⟨path, parses, noLeaf⟩
    · exact .unreadable unreadable
    · exact .root root
    · exact .noLeaf parses noLeaf
  | literal chain reference v found =>
    rw [lookup_of_literal found] at noValue
    cases noValue
  | cycle chain reference e found closes => exact .cycle found (closesCycle_iff.mp closes)
  | enter chain reference e found free ih =>
    rw [lookup_of_expression found free, Scalar.literal?_eq_none_iff, resolve,
      isExpression_fillExpression_iff (wf reference e found)] at noValue
    obtain ⟨source, reference', mem, noValue⟩ := noValue
    exact .unresolved found (.only mem (ih reference' noValue))

mutual

/-- What the rules call unresolved stays an expression. -/
theorem Unresolved.stays (wfScope : WellFormedScope scope) {chain : Chain} {e : Expression}
    (wf : e.WellFormed) : Unresolved scope chain e → (resolve scope e chain).isExpression = true
  | .only mem absent => by
    rw [resolve, isExpression_fillExpression_iff wf]
    exact ⟨_, _, mem, absent.lookup wfScope⟩

/-- What the rules call absent has no value. -/
theorem Absent.lookup (wfScope : WellFormedScope scope) {chain : Chain} {reference : String} :
    Absent scope chain reference → lookup scope chain reference = none
  | .unreadable unreadable => lookup_of_none (leafAt?_eq_none_iff.mpr (.inl ⟨_, unreadable⟩))
  | .root root => lookup_of_none (leafAt?_eq_none_iff.mpr (.inr (.inl root)))
  | .noLeaf parses noLeaf =>
    lookup_of_none (leafAt?_eq_none_iff.mpr (.inr (.inr ⟨_, parses, noLeaf⟩)))
  | .cycle found on => lookup_of_cycle found (closesCycle_iff.mpr on)
  | .unresolved found unresolved => by
    cases free : closesCycle chain _ with
    | true => exact lookup_of_cycle found free
    | false =>
      rw [lookup_of_expression found free, Scalar.literal?_eq_none_iff]
      exact unresolved.stays wfScope (wfScope _ _ found)

end

theorem absent_iff (wf : WellFormedScope scope) :
    lookup scope chain reference = none ↔ Absent scope chain reference :=
  ⟨absent_of_lookup wf, fun absent => absent.lookup wf⟩

/-- An expression stays one exactly by the rules. -/
theorem unresolved_iff (wfScope : WellFormedScope scope) (wf : e.WellFormed) :
    (resolve scope e chain).isExpression = true ↔ Unresolved scope chain e := by
  refine ⟨fun stays => ?_, fun unresolved => unresolved.stays wfScope wf⟩
  rw [resolve, isExpression_fillExpression_iff wf] at stays
  obtain ⟨source, reference, mem, noValue⟩ := stays
  exact .only mem ((absent_iff wfScope).mp noValue)

/-! ## The scope -/

/-- Where the expressions that a tree holds come from templates, those of the scope do. -/
theorem Prepared.arises (prepared : Prepared root values parsed scope)
    (arise : ∀ p e, root.get? p = some (.leaf (.expression e)) → e.Arises)
    (arise' : ∀ p e, values.get? p = some (.leaf (.expression e)) → e.Arises)
    (found : leafAt? scope reference = some (.expression e)) : e.Arises := by
  obtain ⟨step, rest, -, leads⟩ := leafAt?_eq_some_iff.mp found
  obtain ⟨s, before, read⟩ := leaf_of_parsed prepared.made leads
  refine arises_of_parse (fun e₁ same => ?_) read e rfl
  subst same
  -- a leaf of the tree has been read once when the scope is read
  rcases Node.get?_withDefaults_leaf_iff.mp before with given | ⟨-, there⟩
  · exact arise' _ e₁ given
  · obtain ⟨s₀, start, first⟩ := leaf_of_parsed prepared.read there
    exact arises_of_parse (fun e₀ same => arise _ e₀ (same ▸ start)) first e₁ rfl

/-! ## One leaf -/

/-- Does the leaf stay an expression when it is read and resolved in the scope? -/
def staysExpression (scope : Node) (s : Scalar) : Bool :=
  match s.parse with
  | .ok t => (resolveScalar scope t).isExpression
  | .error _ => false

theorem staysExpression_of_parse (read : s.parse = .ok t) :
    staysExpression scope s = (resolveScalar scope t).isExpression := by
  rw [staysExpression, read]

theorem staysExpression_iff : staysExpression scope s = true ↔
    ∃ e, s.parse = .ok (.expression e) ∧ (resolve scope e (Chain.enter [] e)).isExpression = true := by
  constructor
  · intro stays
    unfold staysExpression at stays
    split at stays
    · next t read =>
      cases t with
      | literal v => cases stays
      | expression e => exact ⟨e, read, stays⟩
    · cases stays
  · rintro ⟨e, read, stays⟩
    rw [staysExpression_of_parse read]
    exact stays

/-- A leaf that stays an expression is an error that names it, or keeps its text. -/
theorem settle_of_stays (read : s.parse = .ok t) (stays : staysExpression scope s = true) :
    settle .fail p (resolveScalar scope t) = .error (.unresolvedExpression p.text s.display) ∧
      settle .unwrap p (resolveScalar scope t) = .ok (.literal s.plain) := by
  obtain ⟨e, read', stays⟩ := staysExpression_iff.mp stays
  cases read.symm.trans read'
  have text := Scalar.plain_of_parse read
  rw [resolveScalar, Scalar.display, text]
  cases resolved : resolve scope e (Chain.enter [] e) with
  | literal v =>
    rw [resolved] at stays
    cases stays
  | expression left =>
    rw [settle, settle, template_of_fillExpression resolved]
    exact ⟨rfl, rfl⟩

/-- The policy does not matter for a leaf that gets a value. -/
theorem settle_of_not_stays (read : s.parse = .ok t) (stays : staysExpression scope s = false) :
    settle policy p (resolveScalar scope t) = .ok (resolveScalar scope t) := by
  rw [staysExpression_of_parse read] at stays
  cases resolved : resolveScalar scope t with
  | literal v => rfl
  | expression left =>
    rw [resolved] at stays
    cases stays

/-! ## Two runs -/

/-- A search that asks a question of the one list, and of the other one a question with the same answer. -/
theorem findSome?_eq_map_find? {α β γ : Type} {R : α → β → Prop} {xs : List α} {ys : List β}
    {f : α → γ} {g : β → Option γ} {P : α → Bool} (related : List.Forall₂ R xs ys)
    (each : ∀ x y, R x y → g y = if P x then some (f x) else none) :
    ys.findSome? g = (xs.find? P).map f := by
  induction related with
  | nil => rfl
  | @cons x y _ _ here _ ih =>
    rw [List.findSome?_cons, List.find?_cons, each x y here]
    cases P x with
    | true => rfl
    | false => exact ih

/-- Keeping templates always succeeds. -/
theorem Prepared.unwrap_ok (prepared : Prepared root values parsed scope) :
    ∃ n, resolveTree root values .unwrap = .ok n := by
  rw [prepared.resolveTree_eq, ← failure?_eq_none_iff, Node.failure?_mapLeaves,
    List.findSome?_eq_none_iff]
  intro leaf _
  cases resolveScalar scope leaf.2 <;> rfl

/-- Failing names the first leaf that stays an expression. -/
theorem Prepared.failure?_fail (prepared : Prepared root values parsed scope) :
    failure? (resolveTree root values .fail) =
      ((root.leaves .root).find? fun leaf => staysExpression scope leaf.2).map fun leaf =>
        .unresolvedExpression leaf.1.text leaf.2.display := by
  rw [prepared.resolveTree_eq, Node.failure?_mapLeaves]
  refine findSome?_eq_map_find? (Node.mapped_of_mapLeaves_ok prepared.read).leaves ?_
  rintro ⟨p, s⟩ ⟨_, t⟩ ⟨rfl, read⟩
  have read := parseLeaf_eq_ok_iff.mp read
  cases stays : staysExpression scope s with
  | true =>
    rw [(settle_of_stays read stays).1]
    rfl
  | false =>
    rw [settle_of_not_stays read stays]
    rfl

/-- If no leaf stays an expression, the policy does not matter. -/
theorem Prepared.fail_eq_unwrap (prepared : Prepared root values parsed scope)
    (none_ : ∀ leaf ∈ root.leaves .root, staysExpression scope leaf.2 = false) :
    resolveTree root values .fail = resolveTree root values .unwrap := by
  rw [prepared.resolveTree_eq, prepared.resolveTree_eq]
  refine Node.mapLeaves_congr fun ⟨p, t⟩ mem => ?_
  obtain ⟨s, before, read⟩ := (Node.mapped_of_mapLeaves_ok prepared.read).mem_leaves mem
  have read := parseLeaf_eq_ok_iff.mp read
  rw [settle_of_not_stays read (none_ _ before), settle_of_not_stays read (none_ _ before)]

/-- Where templates are kept, a leaf that stays an expression keeps its text. -/
theorem Prepared.unwrap_keeps (prepared : Prepared root values parsed scope)
    (done : resolveTree root values .unwrap = .ok n) (leaf : root.get? p = some (.leaf s))
    (stays : staysExpression scope s = true) : n.get? p = some (.leaf (.literal s.plain)) := by
  obtain ⟨t, there, read⟩ := leaf_parsed prepared.read leaf
  rw [prepared.resolveTree_eq] at done
  obtain ⟨t', result, settled⟩ := (Node.mapped_of_mapLeaves_ok done).leaf_of there
  cases (settle_of_stays read stays).2.symm.trans settled
  exact result

/-- If all expressions in the two trees come from templates, the policies are as follows. Either both fail
with the same parse error, or keeping templates succeeds, and then

* failing names the first leaf that stays an expression in the scope, and succeeds with the same tree if
  there is none;
* every leaf that stays an expression keeps its text;
* a leaf stays an expression exactly by the rules of `Unresolved`. -/
theorem resolveTree_policies (arise : ∀ p e, root.get? p = some (.leaf (.expression e)) → e.Arises)
    (arise' : ∀ p e, values.get? p = some (.leaf (.expression e)) → e.Arises) :
    (∃ e, e.kind = .parse ∧ resolveTree root values .fail = .error e ∧
      resolveTree root values .unwrap = .error e) ∨
    ∃ parsed scope n, Prepared root values parsed scope ∧
      resolveTree root values .unwrap = .ok n ∧
      (resolveTree root values .fail =
        match (root.leaves .root).find? fun leaf => staysExpression scope leaf.2 with
        | none => .ok n
        | some (p, s) => .error (.unresolvedExpression p.text s.display)) ∧
      (∀ p s, root.get? p = some (.leaf s) → staysExpression scope s = true →
        n.get? p = some (.leaf (.literal s.plain))) ∧
      ∀ p s, root.get? p = some (.leaf s) → (staysExpression scope s = true ↔
        ∃ e, s.parse = .ok (.expression e) ∧ Unresolved scope (Chain.enter [] e) e) := by
  rcases prepared_or_error root values with ⟨parsed, scope, prepared⟩ | ⟨e, kind, failed⟩
  · obtain ⟨n, unwrapped⟩ := prepared.unwrap_ok
    have wfScope : WellFormedScope scope := fun _ _ found =>
      (prepared.arises arise arise' found).wellFormed
    refine .inr ⟨parsed, scope, n, prepared, unwrapped, ?_, fun p s leaf stays =>
      prepared.unwrap_keeps unwrapped leaf stays, fun p s leaf => ?_⟩
    · have failure := prepared.failure?_fail
      split
      · next none_ =>
        rw [← unwrapped]
        refine prepared.fail_eq_unwrap fun leaf mem => ?_
        exact Bool.eq_false_iff.mpr (List.find?_eq_none.mp none_ leaf mem)
      · next p s first =>
        rw [first] at failure
        exact failure?_eq_some_iff.mp failure
    · rw [staysExpression_iff]
      refine exists_congr fun e => and_congr_right fun read => ?_
      have arises := arises_of_parse (fun e₀ same => arise p e₀ (same ▸ leaf)) read e rfl
      exact unresolved_iff wfScope arises.wellFormed
  · exact .inl ⟨e, kind, failed .fail, failed .unwrap⟩

/-- Two leaves that refer to each other, and one that refers to a given value. -/
theorem resolveTree_policies_cycle :
    let text (s : String) : Node := .leaf (.literal (.string s))
    let root : Node := .map [("c", text "${n}"), ("a", text "${b}-${n}"), ("b", text "${a}")]
    let values : Node := .map [("n", .leaf (.literal (.integer 7)))]
    (∀ p e, root.get? p = some (.leaf (.expression e)) → e.Arises) ∧
    (∀ p e, values.get? p = some (.leaf (.expression e)) → e.Arises) ∧
    resolveTree root values .fail = .error (.unresolvedExpression "a" "${b}-${n}") ∧
    ∃ n, resolveTree root values .unwrap = .ok n ∧ n.get? [.name "a"] = root.get? [.name "a"] := by
  intro text root values
  have arise : ∀ p e, root.get? p = some (.leaf (.expression e)) → e.Arises := by
    intro p e leads
    have mem := Node.mem_leaves_of_get? .root leads
    simp [root, text, Node.leaves, Node.leavesOfEntries] at mem
  have arise' : ∀ p e, values.get? p = some (.leaf (.expression e)) → e.Arises := by
    intro p e leads
    have mem := Node.mem_leaves_of_get? .root leads
    simp [values, Node.leaves, Node.leavesOfEntries] at mem
  let toN : Scalar := .expression ⟨"${n}", [.reference "n" ["n"]]⟩
  let toB : Scalar := .expression
    ⟨"${b}-${n}", [.reference "b" ["b"], .fixed (.string "-"), .reference "n" ["n"]]⟩
  let toA : Scalar := .expression ⟨"${a}", [.reference "a" ["a"]]⟩
  have read : root.mapLeaves parseLeaf .root =
      .ok (.map [("c", .leaf toN), ("a", .leaf toB), ("b", .leaf toA)]) := by cbv
  have made : scopeOf values (.map [("c", .leaf toN), ("a", .leaf toB), ("b", .leaf toA)]) =
      .ok (.map [("n", .leaf (.literal (.integer 7))), ("c", .leaf toN), ("a", .leaf toB),
        ("b", .leaf toA)]) := by cbv
  rcases resolveTree_policies arise arise' with ⟨e, -, -, failed⟩ | ⟨parsed, scope, n, prepared, rest⟩
  · obtain ⟨n, unwrapped⟩ := Prepared.unwrap_ok ⟨read, made⟩
    cases failed.symm.trans unwrapped
  · obtain ⟨unwrapped, failing, keeps, -⟩ := rest
    cases prepared.read.symm.trans read
    cases prepared.made.symm.trans made
    refine ⟨arise, arise', failing.trans (by cbv), n, unwrapped, ?_⟩
    exact keeps [.name "a"] _ rfl (by cbv)

end Resolution

end LayeredConfig
