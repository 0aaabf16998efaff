import LayeredConfig.Proofs.Computation
import LayeredConfig.Resolution

/-!
# Reading templates and filling them

A template with a reference in it opens one (`opensReference_of_parse`), so a leaf with such a text is
read as an expression. `Expression.Arises` are the expressions that leaves can hold: they come from a
template, and references in them may have been filled in. All their references have alternatives
(`Arises.wellFormed`), so such an expression stays one exactly if the only alternative of some reference
has no value (`isExpression_fillExpression_iff`).
-/

namespace LayeredConfig

/-- A reference has at least one alternative. -/
def Segment.WellFormed : Segment → Prop
  | .fixed _ => True
  | .reference _ alternatives => alternatives ≠ []

/-- All references have alternatives. -/
def Expression.WellFormed (e : Expression) : Prop :=
  ∀ segment ∈ e.segments, segment.WellFormed

namespace Template

theorem opensReference_cons {c : Char} {rest : List Char}
    (plain : opensReference (c :: rest) = false) : opensReference rest = false := by
  unfold opensReference at plain
  split at plain
  · next bad => cases bad
  · cases plain
  · next same =>
    cases same
    exact plain

theorem isFixed_of_mem_textSegment {chars : List Char} {segment : Segment}
    (mem : segment ∈ textSegment chars) : segment.isFixed = true := by
  unfold textSegment at mem
  split at mem
  · cases mem
  · cases List.mem_singleton.mp mem
    rfl

/-- A text that opens no reference is read without references. -/
theorem isFixed_of_scan {place : Place} {chars cs : List Char} {found : List Segment}
    (text : place = .text chars) (plain : opensReference cs = false)
    (read : scan place cs = .ok found) : ∀ segment ∈ found, segment.isFixed = true := by
  fun_induction scan place cs generalizing chars found with
  | case1 =>
    cases read
    exact fun _ => isFixed_of_mem_textSegment
  | case2 => cases text
  | case3 => cases read
  | case4 place c rest _ ih =>
    subst text
    exact ih rfl (opensReference_cons (opensReference_cons plain)) read
  | case5 => cases read
  | case6 => cases plain
  | case7 chars c rest _ _ _ ih => exact ih rfl (opensReference_cons plain) read
  | case8 => cases text
  | case9 => cases text

theorem wellFormed_textSegment {chars : List Char} {segment : Segment}
    (mem : segment ∈ textSegment chars) : segment.WellFormed := by
  have fixed := isFixed_of_mem_textSegment mem
  cases segment with
  | fixed v => trivial
  | reference source alternatives => cases fixed

theorem wellFormed_referenceSegment {chars : List Char} {segment : Segment}
    (read : referenceSegment chars = .ok segment) : segment.WellFormed := by
  unfold referenceSegment at read
  split at read
  · cases read
  · cases read
    trivial
  · next alternatives notEmpty _ =>
    cases read
    exact notEmpty

/-- All references that are read from a template have alternatives. -/
theorem wellFormed_of_scan {place : Place} {cs : List Char} {found : List Segment}
    (read : scan place cs = .ok found) : ∀ segment ∈ found, segment.WellFormed := by
  fun_induction scan place cs generalizing found with
  | case1 =>
    cases read
    exact fun _ => wellFormed_textSegment
  | case2 => cases read
  | case3 => cases read
  | case4 place c rest _ ih => exact ih read
  | case5 => cases read
  | case6 chars rest ih =>
    obtain ⟨more, scanned, same⟩ := bind_eq_ok.mp read
    cases pure_eq_ok.mp same
    intro segment mem
    rcases List.mem_append.mp mem with here | later
    · exact wellFormed_textSegment here
    · exact ih scanned segment later
  | case7 chars c rest _ _ _ ih => exact ih read
  | case8 chars quote? c rest _ _ _ ih =>
    obtain ⟨segment, closed, read⟩ := bind_eq_ok.mp read
    obtain ⟨more, scanned, same⟩ := bind_eq_ok.mp read
    cases pure_eq_ok.mp same
    exact List.forall_mem_cons.mpr ⟨wellFormed_referenceSegment closed, ih scanned⟩
  | case9 chars quote? c rest _ _ _ ih => exact ih read

end Template

namespace Expression

variable {template : String} {e : Expression}

theorem parse_eq_ok_iff :
    Expression.parse template = .ok e ↔
      Template.segments template.toList = .ok e.segments ∧ e.template = template := by
  unfold Expression.parse
  cases Template.segments template.toList with
  | error fault => simp
  | ok segments =>
    obtain ⟨template', segments'⟩ := e
    simp only [Except.ok.injEq, Expression.mk.injEq]
    constructor
    · rintro ⟨rfl, rfl⟩
      exact ⟨rfl, rfl⟩
    · rintro ⟨rfl, rfl⟩
      exact ⟨rfl, rfl⟩

/-- A template with a reference in it opens one. -/
theorem opensReference_of_parse (read : Expression.parse template = .ok e) {segment : Segment}
    (mem : segment ∈ e.segments) (reference : segment.isFixed = false) :
    Template.opensReference template.toList = true := by
  rw [← Bool.not_eq_false]
  intro plain
  obtain ⟨scanned, -⟩ := parse_eq_ok_iff.mp read
  obtain ⟨found, scanned, same⟩ := bind_eq_ok.mp scanned
  have fixed := Template.isFixed_of_scan rfl plain scanned
  split at same
  · rw [← pure_eq_ok.mp same] at mem
    cases List.mem_singleton.mp mem
    cases reference
  · rw [← pure_eq_ok.mp same] at mem
    rw [fixed segment mem] at reference
    cases reference

theorem wellFormed_of_parse (read : Expression.parse template = .ok e) : e.WellFormed := by
  obtain ⟨scanned, -⟩ := parse_eq_ok_iff.mp read
  obtain ⟨found, scanned, same⟩ := bind_eq_ok.mp scanned
  unfold WellFormed
  split at same
  · rw [← pure_eq_ok.mp same]
    exact List.forall_mem_singleton.mpr trivial
  · rw [← pure_eq_ok.mp same]
    exact Template.wellFormed_of_scan scanned

theorem kind_of_parse_error {fault : Error} (rejected : Expression.parse template = .error fault) :
    fault.kind = .parse := by
  unfold Expression.parse at rejected
  split at rejected
  · cases rejected
  · next reason _ =>
    cases rejected
    cases reason <;> rfl

end Expression

/-! ## Reading leaves -/

section Leaves

variable {s t : Scalar} {e : Expression}

/-- A scalar that is no template is read as itself. -/
theorem Scalar.parse_of_plain
    (plain : ∀ text, s = .literal (.string text) → Template.opensReference text.toList = false) :
    s.parse = .ok s := by
  unfold Scalar.parse
  split
  · next text =>
    rw [plain text rfl]
    rfl
  · rfl

/-- Only a text that opens a reference can be rejected. -/
theorem Scalar.parse_eq_error_iff {cause : Error} :
    s.parse = .error cause ↔ ∃ template, s = .literal (.string template) ∧
      Template.opensReference template.toList = true ∧ Expression.parse template = .error cause := by
  constructor
  · intro rejected
    unfold Scalar.parse at rejected
    split at rejected
    · next template =>
      split at rejected
      · next opens =>
        rcases bind_eq_error.mp rejected with rejected | ⟨_, _, ⟨⟩⟩
        exact ⟨template, rfl, opens, rejected⟩
      · cases rejected
    · cases rejected
  · rintro ⟨template, rfl, opens, rejected⟩
    rw [Scalar.parse, if_pos opens, rejected]
    rfl

theorem Expression.toScalar_eq_expression {read : Expression} (same : read.toScalar = .expression e) :
    read = e := by
  unfold Expression.toScalar at same
  split at same
  · cases same
  · exact Scalar.expression.inj same

/-- An expression in a leaf was there before, or is what the text of its template is read as. -/
theorem Scalar.of_parse_eq_expression (read : s.parse = .ok (.expression e)) :
    s = .expression e ∨
      s = .literal (.string e.template) ∧ Expression.parse e.template = .ok e := by
  unfold Scalar.parse at read
  split at read
  · next template =>
    split at read
    · obtain ⟨found, parsed, same⟩ := bind_eq_ok.mp read
      cases Expression.toScalar_eq_expression (pure_eq_ok.mp same)
      rw [(Expression.parse_eq_ok_iff.mp parsed).2]
      exact .inr ⟨rfl, parsed⟩
    · cases pure_eq_ok.mp read
  · exact .inl (pure_eq_ok.mp read)

/-- The template of an expression is the text of the leaf that it was read from. -/
theorem Scalar.plain_of_parse (read : s.parse = .ok (.expression e)) :
    s.plain = .string e.template := by
  rcases Scalar.of_parse_eq_expression read with rfl | ⟨rfl, -⟩
  · rfl
  · rfl

/-- A template with a single reference is read as an expression. -/
theorem Scalar.parse_of_single {template source : String} {alternatives : List String}
    (read : Expression.parse template = .ok ⟨template, [.reference source alternatives]⟩) :
    (Scalar.literal (.string template)).parse =
      .ok (.expression ⟨template, [.reference source alternatives]⟩) := by
  have opens := Expression.opensReference_of_parse read List.mem_cons_self rfl
  rw [Scalar.parse, if_pos opens]
  exact bind_eq_ok.mpr ⟨_, read, rfl⟩

end Leaves

/-! ## Filling references -/

namespace Resolution

variable {value? : String → Option Literal} {e : Expression} {source : String}

/-- An expression that is a single reference has the value of the reference, or stays as it is. -/
theorem fillExpression_single {alternatives : List String}
    (single : e.segments = [.reference source alternatives]) :
    fillExpression value? e =
      match choose value? alternatives with
      | some v => .literal v
      | none => .expression e := by
  obtain ⟨template, segments⟩ := e
  subst single
  simp only [fillExpression, List.map_cons, List.map_nil, fillSegment]
  cases choose value? alternatives <;> rfl

theorem choose_single (value? : String → Option Literal) (reference : String) :
    choose value? [reference] = value? reference := by
  unfold choose
  rw [List.findSome?_singleton]
  cases value? reference <;> rfl

/-- Only a reference with a single alternative can be left without a value. -/
theorem choose_eq_none_iff {alternatives : List String} (notEmpty : alternatives ≠ []) :
    choose value? alternatives = none ↔
      ∃ reference, alternatives = [reference] ∧ value? reference = none := by
  match alternatives with
  | [reference] => simp [choose_single]
  | first :: second :: rest =>
    have chosen : choose value? (first :: second :: rest) ≠ none := by
      unfold choose
      split
      · exact Option.some_ne_none _
      · exact Option.some_ne_none _
    simp [chosen]

theorem isExpression_toScalar_iff :
    e.toScalar.isExpression = true ↔ ∃ segment ∈ e.segments, segment.isFixed = false := by
  have open_ : e.toScalar.isExpression = !e.isFixed := by
    unfold Expression.toScalar Expression.value?
    cases e.isFixed <;> rfl
  rw [open_, Bool.not_eq_true', Expression.isFixed, List.all_eq_false]
  simp only [Bool.not_eq_true]

theorem isFixed_fillSegment_iff {segment : Segment} :
    (fillSegment value? segment).isFixed = false ↔
      ∃ source alternatives, segment = .reference source alternatives ∧
        choose value? alternatives = none := by
  cases segment with
  | fixed v => simp [fillSegment, Segment.isFixed]
  | reference source alternatives =>
    rw [fillSegment]
    constructor
    · intro left_
      refine ⟨source, alternatives, rfl, ?_⟩
      cases chosen : choose value? alternatives with
      | none => rfl
      | some v =>
        rw [chosen] at left_
        cases left_
    · rintro ⟨_, _, ⟨⟩, noChoice⟩
      rw [noChoice]
      rfl

/-- A reference is left in an expression exactly if one with a single alternative has no value. -/
theorem isExpression_fillExpression_iff (wf : e.WellFormed) :
    (fillExpression value? e).isExpression = true ↔
      ∃ source reference, .reference source [reference] ∈ e.segments ∧ value? reference = none := by
  rw [fillExpression, isExpression_toScalar_iff]
  constructor
  · rintro ⟨_, there, left_⟩
    obtain ⟨segment, mem, rfl⟩ := List.mem_map.mp there
    obtain ⟨source, alternatives, rfl, noChoice⟩ := isFixed_fillSegment_iff.mp left_
    have notEmpty : alternatives ≠ [] := wf _ mem
    obtain ⟨reference, rfl, noValue⟩ := (choose_eq_none_iff notEmpty).mp noChoice
    exact ⟨source, reference, mem, noValue⟩
  · rintro ⟨source, reference, mem, noValue⟩
    refine ⟨_, List.mem_map_of_mem mem, isFixed_fillSegment_iff.mpr ⟨source, [reference], rfl, ?_⟩⟩
    rw [choose_single, noValue]

/-- The template of an expression stays the one that was read. -/
theorem template_of_fillExpression {left : Expression}
    (left_ : fillExpression value? e = .expression left) : left.template = e.template := by
  rw [← Expression.toScalar_eq_expression left_]

end Resolution

/-- The expressions that a leaf can hold: one that is read from a template, and what is left of it when
values are filled in for some of its references. -/
inductive Expression.Arises : Expression → Prop
  | read {template : String} {e : Expression} : Expression.parse template = .ok e → e.Arises
  | filled {e left : Expression} (value? : String → Option Literal) :
      e.Arises → Resolution.fillExpression value? e = .expression left → left.Arises

/-- A template that is a single reference stands for one expression only. -/
theorem Expression.Arises.eq_single {e single : Expression} {source : String}
    {alternatives : List String} (arises : e.Arises)
    (read : Expression.parse e.template = .ok single)
    (segments : single.segments = [.reference source alternatives]) : e = single := by
  induction arises with
  | read parsed =>
    rw [(Expression.parse_eq_ok_iff.mp parsed).2, parsed] at read
    exact Except.ok.inj read
  | @filled e left value? _ left_ ih =>
    rw [Resolution.template_of_fillExpression left_] at read
    cases ih read
    rw [Resolution.fillExpression_single segments] at left_
    split at left_
    · cases left_
    · exact (Scalar.expression.inj left_).symm

/-- Filling in values takes no alternatives away. -/
theorem Expression.Arises.wellFormed {e : Expression} (arises : e.Arises) : e.WellFormed := by
  induction arises with
  | read parsed => exact wellFormed_of_parse parsed
  | @filled e left value? _ left_ ih =>
    rw [← Expression.toScalar_eq_expression left_]
    intro segment there
    obtain ⟨before, mem, rfl⟩ := List.mem_map.mp there
    have holds := ih before mem
    cases before with
    | fixed v => trivial
    | reference source alternatives =>
      rw [Resolution.fillSegment]
      split
      · trivial
      · exact holds

end LayeredConfig
