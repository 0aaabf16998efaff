import LayeredConfig.Resolution

/-!
# What a lookup does

The cases of `lookup` as equations, one for each kind of leaf that a reference may lead to, and
induction over these cases (`lookup_induction`).
-/

namespace LayeredConfig

/-- The value of a scalar that is no expression. -/
def Scalar.literal? : Scalar → Option Literal
  | .literal v => some v
  | .expression _ => none

theorem Scalar.literal?_eq_none_iff {s : Scalar} : s.literal? = none ↔ s.isExpression = true := by
  cases s <;> simp [Scalar.literal?, Scalar.isExpression]

namespace Resolution

variable {scope : Node} {chain : Chain} {reference : String} {e : Expression}

theorem closesCycle_iff : closesCycle chain e = true ↔ e.template ∈ chain :=
  List.contains_iff_mem

theorem mem_enter_iff {t : String} : t ∈ chain.enter e ↔ t = e.template ∨ t ∈ chain :=
  List.mem_cons

theorem leafAt?_eq_some_iff {s : Scalar} :
    leafAt? scope reference = some s ↔ ∃ step rest, Path.parse reference = .ok (step :: rest) ∧
      scope.get? (step :: rest) = some (.leaf s) := by
  unfold leafAt?
  split
  · next step rest parsed =>
    rw [parsed]
    constructor
    · intro found
      obtain ⟨node, leads, isLeaf⟩ := Option.bind_eq_some_iff.mp found
      match node, isLeaf with
      | .leaf _, rfl => exact ⟨step, rest, rfl, leads⟩
    · rintro ⟨_, _, ⟨⟩, leads⟩
      rw [leads]
      rfl
  · next none =>
    constructor
    · rintro ⟨⟩
    · rintro ⟨step, rest, parsed, -⟩
      exact absurd parsed (none step rest)

theorem leafAt?_eq_none_iff :
    leafAt? scope reference = none ↔
      (∃ error, Path.parse reference = .error error) ∨ Path.parse reference = .ok .root ∨
        ∃ path, Path.parse reference = .ok path ∧ ∀ s, scope.get? path ≠ some (.leaf s) := by
  rw [Option.eq_none_iff_forall_ne_some]
  constructor
  · intro noLeaf
    match parsed : Path.parse reference with
    | .error error => exact .inl ⟨error, rfl⟩
    | .ok [] => exact .inr (.inl rfl)
    | .ok (step :: rest) =>
      refine .inr (.inr ⟨_, rfl, fun s leads => noLeaf s ?_⟩)
      exact leafAt?_eq_some_iff.mpr ⟨step, rest, parsed, leads⟩
  · rintro none s found
    obtain ⟨step, rest, parsed, leads⟩ := leafAt?_eq_some_iff.mp found
    rw [parsed] at none
    rcases none with ⟨_, ⟨⟩⟩ | ⟨⟨⟩⟩ | ⟨_, ⟨⟩, noLeaf⟩
    exact noLeaf s leads

theorem lookup_of_none (found : leafAt? scope reference = none) :
    lookup scope chain reference = none := by
  rw [lookup]
  split <;> simp_all

theorem lookup_of_literal {v : Literal} (found : leafAt? scope reference = some (.literal v)) :
    lookup scope chain reference = some v := by
  rw [lookup]
  split <;> simp_all

theorem lookup_of_cycle (found : leafAt? scope reference = some (.expression e))
    (cycle : closesCycle chain e = true) : lookup scope chain reference = none := by
  rw [lookup]
  split <;> simp_all

/-- An expression that closes no cycle is resolved, with its template on the chain. -/
theorem lookup_of_expression (found : leafAt? scope reference = some (.expression e))
    (free : closesCycle chain e = false) :
    lookup scope chain reference = (resolve scope e (chain.enter e)).literal? := by
  rw [lookup]
  split
  · simp_all
  · next e' found' =>
    cases found.symm.trans found'
    rw [dif_neg (by simp [free]), resolve]
    split <;> simp_all [Scalar.literal?]
  · simp_all

/-- Induction over the calls of `lookup`, from the references of an expression to the expression. -/
@[elab_as_elim]
theorem lookup_induction (scope : Node) {motive : Chain → String → Prop}
    (none : ∀ chain reference, leafAt? scope reference = none → motive chain reference)
    (literal : ∀ chain reference v, leafAt? scope reference = some (.literal v) →
      motive chain reference)
    (cycle : ∀ chain reference e, leafAt? scope reference = some (.expression e) →
      closesCycle chain e = true → motive chain reference)
    (enter : ∀ chain reference e, leafAt? scope reference = some (.expression e) →
      closesCycle chain e = false → (∀ r, motive (chain.enter e) r) → motive chain reference)
    (chain : Chain) (reference : String) : motive chain reference := by
  induction chain, reference using lookup.induct scope with
  | case1 chain reference v found => exact literal chain reference v found
  | case2 chain reference e found closes => exact cycle chain reference e found closes
  | case3 chain reference e found free v _ ih =>
    exact enter chain reference e found (Bool.eq_false_iff.mpr free) ih
  | case4 chain reference e found free left _ ih =>
    exact enter chain reference e found (Bool.eq_false_iff.mpr free) ih
  | case5 chain reference found => exact none chain reference found

end Resolution

end LayeredConfig
