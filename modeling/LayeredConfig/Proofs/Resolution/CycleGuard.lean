import LayeredConfig.Proofs.Resolution.Lookup
import Mathlib

/-!
# The guard against cycles cuts no other lookup

`evaluate` resolves an expression like `resolve`, but keeps no chain; fuel bounds how deep it follows
references. Whenever it comes to an end, the guarded resolution has the same result
(`resolve_of_evaluate`), so a template on the chain is only ever met again where following it would
never end.

The argument goes by the fuel that an expression needs. While an expression is being resolved that needs
`n + 1`, everything on its chain needs more than `n`, and every expression that it refers to needs at most
`n`. So none of these is on the chain, even if other leaves hold the same template.
-/

namespace LayeredConfig

/-- The expression is what its template is read as. -/
def Expression.IsRead (e : Expression) : Prop :=
  Expression.parse e.template = .ok e

namespace Resolution

/-! ## Resolution without a guard

A value that is asked for is `none` if the question does not come to an end. -/

/-- The text to fall back to: the last of several alternatives. -/
def fallback? : List String → Option Literal
  | _ :: other :: rest => some (.string ((other :: rest).getLast (List.cons_ne_nil other rest)))
  | _ => none

/-- The value of a reference. Alternatives after the first one with a value are not asked for. -/
def chooseAsking (ask : String → Option (Option Literal)) (alternatives : List String) :
    Option (Option Literal) := do
  let found ← alternatives.findSomeM? ask
  return found.or (fallback? alternatives)

def fillSegmentAsking (ask : String → Option (Option Literal)) : Segment → Option Segment
  | .fixed v => some (.fixed v)
  | .reference source alternatives => do
    match ← chooseAsking ask alternatives with
    | some v => return .fixed v
    | none => return .reference source alternatives

def fillAsking (ask : String → Option (Option Literal)) (e : Expression) : Option Scalar := do
  let segments ← e.segments.mapM (fillSegmentAsking ask)
  return Expression.toScalar { e with segments }

/-- The value of a path text. An expression is resolved first and has no value if a reference is left. -/
def askScope (scope : Node) (run : Expression → Option Scalar) (reference : String) :
    Option (Option Literal) :=
  match leafAt? scope reference with
  | some (.literal v) => some (some v)
  | some (.expression e) => (run e).map Scalar.literal?
  | none => some none

/-- Resolves an expression without looking out for cycles. -/
def evaluate (scope : Node) : Nat → Expression → Option Scalar
  | 0, _ => none
  | fuel + 1, e => fillAsking (askScope scope (evaluate scope fuel)) e

/-! ## More answers

Whoever gets more answers, and the same ones as far as there were answers before, comes to the same
result. -/

section More

variable {ask ask' : String → Option (Option Literal)}

/-- Every answer of `ask` is also one of `ask'`. -/
def MoreAnswers (ask ask' : String → Option (Option Literal)) : Prop :=
  ∀ r v?, ask r = some v? → ask' r = some v?

theorem findSomeM?_more (more : MoreAnswers ask ask') {rs : List String}
    {found : Option Literal} (done : rs.findSomeM? ask = some found) :
    rs.findSomeM? ask' = some found := by
  induction rs with
  | nil => exact done
  | cons r rest ih =>
    rw [List.findSomeM?_cons] at done ⊢
    obtain ⟨v?, asked, later⟩ := Option.bind_eq_some_iff.mp done
    refine Option.bind_eq_some_iff.mpr ⟨v?, more r v? asked, ?_⟩
    cases v? with
    | none => exact ih later
    | some v => exact later

theorem fillSegmentAsking_more (more : MoreAnswers ask ask')
    {segment filled : Segment} (done : fillSegmentAsking ask segment = some filled) :
    fillSegmentAsking ask' segment = some filled := by
  cases segment with
  | fixed v => exact done
  | reference source alternatives =>
    obtain ⟨v?, chosen, made⟩ := Option.bind_eq_some_iff.mp done
    obtain ⟨found, asked, same⟩ := Option.bind_eq_some_iff.mp chosen
    refine Option.bind_eq_some_iff.mpr ⟨v?, ?_, made⟩
    exact Option.bind_eq_some_iff.mpr ⟨found, findSomeM?_more more asked, same⟩

theorem fillAsking_more (more : MoreAnswers ask ask') {e : Expression}
    {s : Scalar} (done : fillAsking ask e = some s) : fillAsking ask' e = some s := by
  have segments : ∀ {segments filled : List Segment},
      segments.mapM (fillSegmentAsking ask) = some filled →
      segments.mapM (fillSegmentAsking ask') = some filled := by
    intro segments
    induction segments with
    | nil => exact id
    | cons segment rest ih =>
      intro filled done
      rw [List.mapM_cons] at done ⊢
      obtain ⟨first, here, done⟩ := Option.bind_eq_some_iff.mp done
      obtain ⟨others, later, same⟩ := Option.bind_eq_some_iff.mp done
      refine Option.bind_eq_some_iff.mpr ⟨first, fillSegmentAsking_more more here, ?_⟩
      exact Option.bind_eq_some_iff.mpr ⟨others, ih later, same⟩
  obtain ⟨filled, done, same⟩ := Option.bind_eq_some_iff.mp done
  exact Option.bind_eq_some_iff.mpr ⟨filled, segments done, same⟩

end More

theorem choose_eq (value? : String → Option Literal) (alternatives : List String) :
    choose value? alternatives = (alternatives.findSome? value?).or (fallback? alternatives) := by
  unfold choose
  split
  · next v found => rw [found, Option.some_or]
  · next found =>
    rw [found, Option.none_or]
    match alternatives with
    | [] => rfl
    | [_] => rfl
    | _ :: _ :: _ => rfl

/-- With an answer to every question, nothing but the values counts. -/
theorem fillAsking_some (value? : String → Option Literal) (e : Expression) :
    fillAsking (fun r => some (value? r)) e = some (fillExpression value? e) := by
  have choose_eq' : ∀ alternatives,
      chooseAsking (fun r => some (value? r)) alternatives = some (choose value? alternatives) := by
    intro alternatives
    have found : alternatives.findSomeM? (fun r => some (value? r)) =
        some (alternatives.findSome? value?) := List.findSomeM?_pure
    rw [chooseAsking, found, choose_eq]
    rfl
  have segment_eq : fillSegmentAsking (fun r => some (value? r)) =
      fun segment => some (fillSegment value? segment) := by
    funext segment
    cases segment with
    | fixed v => rfl
    | reference source alternatives =>
      rw [fillSegmentAsking, choose_eq', fillSegment]
      cases choose value? alternatives <;> rfl
  have segments_eq : e.segments.mapM (fun segment => some (fillSegment value? segment)) =
      some (e.segments.map (fillSegment value?)) := List.mapM_pure
  rw [fillAsking, segment_eq, segments_eq, fillExpression]
  rfl

/-! ## Fuel -/

section Fuel

variable {scope : Node} {e : Expression} {s : Scalar}

theorem askScope_more {run run' : Expression → Option Scalar}
    (more : ∀ e s, run e = some s → run' e = some s) :
    MoreAnswers (askScope scope run) (askScope scope run') := by
  intro r v? asked
  unfold askScope at asked ⊢
  split at asked
  · exact asked
  · next e _ =>
    obtain ⟨s, ran, same⟩ := Option.map_eq_some_iff.mp asked
    exact Option.map_eq_some_iff.mpr ⟨s, more e s ran, same⟩
  · exact asked

/-- More fuel does not change a result. -/
theorem evaluate_succ {fuel : Nat} (done : evaluate scope fuel e = some s) :
    evaluate scope (fuel + 1) e = some s := by
  induction fuel generalizing e s with
  | zero => cases done
  | succ fuel ih => exact fillAsking_more (askScope_more fun e s => ih) done

theorem evaluate_mono {fuel more : Nat} (le : fuel ≤ more) (done : evaluate scope fuel e = some s) :
    evaluate scope more e = some s := by
  induction le with
  | refl => exact done
  | step _ ih => exact evaluate_succ ih

/-- An expression that comes to an end needs some fuel, and comes to its end with one more. -/
theorem exists_needed {fuel : Nat} (done : evaluate scope fuel e = some s) :
    ∃ needed < fuel, evaluate scope needed e = none ∧ evaluate scope (needed + 1) e = some s := by
  induction fuel with
  | zero => cases done
  | succ fuel ih =>
    cases before : evaluate scope fuel e with
    | none => exact ⟨fuel, Nat.lt_succ_self fuel, before, done⟩
    | some s' =>
      cases (evaluate_succ before).symm.trans done
      obtain ⟨needed, less, rest⟩ := ih before
      exact ⟨needed, Nat.lt_succ_of_lt less, rest⟩

end Fuel

/-! ## The guard -/

section Guard

variable {scope : Node} {e : Expression} {s : Scalar} {chain : Chain}

/-- No expression on the chain comes to an end with this fuel. -/
def Waits (scope : Node) (fuel : Nat) (chain : Chain) : Prop :=
  ∀ e : Expression, e.IsRead → e.template ∈ chain → evaluate scope fuel e = none

/-- Whoever needs less fuel than all others on the chain may be put on it. -/
theorem Waits.enter {fuel needed : Nat} (waits : Waits scope fuel chain) (le : needed ≤ fuel)
    (read : e.IsRead) (open_ : evaluate scope needed e = none) :
    Waits scope needed (chain.enter e) := by
  intro e' read' mem
  rcases mem_enter_iff.mp mem with same | before
  · -- the template is all that tells expressions apart
    have parsed : Expression.parse e.template = .ok e' := same ▸ read'
    cases read.symm.trans parsed
    exact open_
  · rw [Option.eq_none_iff_forall_ne_some]
    intro s done
    have later := evaluate_mono le done
    rw [waits e' read' before] at later
    cases later

/-- While everything on the chain waits, the guard cuts no lookup that comes to an end, provided that
expressions with less need are resolved as without a guard. -/
theorem lookup_of_waits (leaves : ∀ p e, (p, .expression e) ∈ scope.leaves .root → e.IsRead)
    {fuel : Nat} (waits : Waits scope fuel chain)
    (resolves : ∀ needed < fuel, ∀ {e : Expression} {s : Scalar} {chain : Chain},
      Waits scope needed chain → evaluate scope (needed + 1) e = some s → resolve scope e chain = s) :
    MoreAnswers (askScope scope (evaluate scope fuel)) fun r => some (lookup scope chain r) := by
  intro r v? asked
  show some (lookup scope chain r) = some v?
  unfold askScope at asked
  split at asked
  · next v found => rw [lookup_of_literal found, asked]
  · next e found =>
    obtain ⟨s, ran, rfl⟩ := Option.map_eq_some_iff.mp asked
    obtain ⟨step, rest, -, leads⟩ := leafAt?_eq_some_iff.mp found
    have read : e.IsRead := leaves _ e (Node.mem_leaves_of_get? .root leads)
    -- the guard does not fire: what is on the chain would not have come to its end
    have free : closesCycle chain e = false := by
      rw [Bool.eq_false_iff]
      intro cycle
      rw [waits e read (closesCycle_iff.mp cycle)] at ran
      cases ran
    obtain ⟨needed, less, open_, ends⟩ := exists_needed ran
    have entered := waits.enter (Nat.le_of_lt less) read open_
    rw [lookup_of_expression found free, resolves needed less entered ends]
  · next found => rw [lookup_of_none found, asked]

theorem resolve_of_waits (leaves : ∀ p e, (p, .expression e) ∈ scope.leaves .root → e.IsRead)
    (fuel : Nat) (waits : Waits scope fuel chain) (done : evaluate scope (fuel + 1) e = some s) :
    resolve scope e chain = s := by
  induction fuel using Nat.strongRecOn generalizing e s chain with
  | ind fuel ih =>
    have filled : fillAsking (fun r => some (lookup scope chain r)) e = some s :=
      fillAsking_more (lookup_of_waits leaves waits ih) done
    rw [fillAsking_some] at filled
    exact Option.some.inj filled

/-- The guard is conservative. If the leaves of the scope are read from their templates, and resolving an
expression without a guard comes to an end, then the guarded resolution has the same result. -/
theorem resolve_of_evaluate (leaves : ∀ p e, (p, .expression e) ∈ scope.leaves .root → e.IsRead)
    (read : e.IsRead) {fuel : Nat} (done : evaluate scope fuel e = some s) :
    resolve scope e (Chain.enter [] e) = s := by
  obtain ⟨needed, -, open_, ends⟩ := exists_needed done
  have nobody : Waits scope needed [] := fun e _ mem => (nomatch mem)
  exact resolve_of_waits leaves needed (nobody.enter (Nat.le_refl needed) read open_) ends

/-- Two leaves hold the same template, and both references are followed. -/
theorem resolve_of_evaluate_same_template :
    let base : Expression := ⟨"${base}", [.reference "base" ["base"]]⟩
    let scope : Node := .map [("base", .leaf (.literal (.integer 5))),
      ("a", .leaf (.expression base)), ("b", .leaf (.expression base))]
    let e : Expression := ⟨"${a}/${b}",
      [.reference "a" ["a"], .fixed (.string "/"), .reference "b" ["b"]]⟩
    resolve scope e (Chain.enter [] e) = .literal (.string "5/5") := by
  intro base scope e
  have readBase : base.IsRead := by cbv
  have leaves : ∀ p e, (p, .expression e) ∈ scope.leaves .root → e.IsRead := by
    intro p e mem
    have only : p = Path.root.key "a" ∧ e = base ∨ p = Path.root.key "b" ∧ e = base := by
      simpa [scope, Node.leaves, Node.leavesOfEntries] using mem
    rcases only with ⟨-, rfl⟩ | ⟨-, rfl⟩
    · exact readBase
    · exact readBase
  have ends : evaluate scope 3 e = some (.literal (.string "5/5")) := by cbv
  exact resolve_of_evaluate leaves (by cbv) ends

end Guard

end Resolution

end LayeredConfig
