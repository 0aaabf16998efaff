import LayeredConfig.Proofs.Computation
import LayeredConfig.Proofs.Reading.DurationForms

/-!
# Durations of the standard

The standard is narrower than what is read in two points (`Standard`): its letters are those of ASCII, and it
has a component behind each time mark. The texts that are read and are not in the standard are those that show
it on their face: they end with a time mark or have a long s (`standard_iff_of_parse`).
-/

namespace LayeredConfig.Duration

open Number

/-- The texts of the standard, in ASCII letters and with a component behind each time mark, and those with one
unit. -/
inductive Standard : List Char → Prop
  | short (a : Amount) (spaces : Nat) (unit : TimeUnit) : Standard (short a spaces unit)
  | components {cs days times?} : Spells EitherCase cs days times? → days ++ times?.getD [] ≠ [] →
      times? ≠ some [] → Standard cs

section Standard

variable {Letter Letter' : Char → Char → Prop} {units : List (Char × TimeUnit)} {cs : List Char}
  {parts days : List Part} {times? : Option (List Part)}

/-- A component has a text, so a list without parts is empty. -/
theorem Lists.eq_nil (listed : Lists Letter units cs []) : cs = [] := by
  generalize nothing : ([] : List Part) = parts at listed
  induction listed with
  | done => rfl
  | absent _ ih => exact ih nothing
  | present => cases nothing

/-- A list ends with one of its letters. -/
theorem Lists.getLast? (listed : Lists Letter units cs parts) (someParts : parts ≠ []) :
    ∃ c, cs.getLast? = some c ∧ ∃ mark ∈ units, Letter mark.1 c := by
  induction listed with
  | done => exact absurd rfl someParts
  | absent _ ih =>
    obtain ⟨c, last, mark, mem, reads⟩ := ih someParts
    exact ⟨c, last, mark, List.mem_cons_of_mem _ mem, reads⟩
  | @present letter c unit units cs parts a reads _ listed ih =>
    rw [List.getLast?_append_cons]
    by_cases more : parts = []
    · rw [(more ▸ listed : Lists Letter units cs []).eq_nil]
      exact ⟨c, rfl, _, List.mem_cons_self, reads⟩
    · obtain ⟨d, last, mark, mem, reads⟩ := ih more
      exact ⟨d, by rw [List.getLast?_cons, last]; rfl, mark, List.mem_cons_of_mem _ mem, reads⟩

/-- A list is one of other letters if its characters are. -/
theorem Lists.imp (listed : Lists Letter units cs parts)
    (same : ∀ letter, ∀ c ∈ cs, Letter letter c → Letter' letter c) : Lists Letter' units cs parts := by
  induction listed with
  | done => exact .done
  | absent _ ih => exact .absent (ih same)
  | present a reads allowed _ ih =>
    refine .present a (same _ _ ?_ reads) allowed (ih fun letter c mem => same letter c ?_)
    · exact List.mem_append_right _ List.mem_cons_self
    · exact List.mem_append_right _ (List.mem_cons_of_mem _ mem)

theorem Spells.imp (spells : Spells Letter cs days times?)
    (same : ∀ letter, ∀ c ∈ cs, Letter letter c → Letter' letter c) : Spells Letter' cs days times? := by
  cases spells with
  | dated reads listed =>
    exact .dated (same _ _ List.mem_cons_self reads)
      (listed.imp fun letter c mem => same letter c (List.mem_cons_of_mem _ mem))
  | timed reads listed mark listed' =>
    refine .timed (same _ _ List.mem_cons_self reads) (listed.imp fun letter c mem => same letter c ?_)
      (same _ _ ?_ mark) (listed'.imp fun letter c mem => same letter c ?_)
    · exact List.mem_cons_of_mem _ (List.mem_append_left _ mem)
    · exact List.mem_cons_of_mem _ (List.mem_append_right _ List.mem_cons_self)
    · exact List.mem_cons_of_mem _ (List.mem_append_right _ (List.mem_cons_of_mem _ mem))

theorem longS_not_letter {letter : Char} (reads : EitherCase letter 'ſ') :
    ¬letter.isUpper = true := by
  rw [← reads]
  decide

/-- The characters of an amount. -/
theorem mem_chars {a : Amount} {c : Char} (mem : c ∈ a.chars) : c.isDigit = true ∨ c = '.' := by
  match shape : a.places with
  | [] =>
    rw [a.chars_of_nil shape] at mem
    exact .inl (a.whole_digits c mem)
  | d :: more =>
    rw [a.chars_of_cons shape, List.mem_append, List.mem_cons, ← shape] at mem
    rcases mem with whole | rfl | places
    · exact .inl (a.whole_digits c whole)
    · exact .inr rfl
    · exact .inl (a.places_digits c places)

theorem longS_not_mem_chars (a : Amount) : 'ſ' ∉ a.chars := by
  intro mem
  rcases mem_chars mem with digit | point
  · exact absurd digit (by decide)
  · exact absurd point (by decide)

theorem Lists.longS_not_mem (listed : Lists EitherCase units cs parts) (lettered : Lettered units) :
    'ſ' ∉ cs := by
  induction listed with
  | done => exact List.not_mem_nil
  | absent _ ih => exact ih lettered.tail
  | present a reads _ _ ih =>
    rw [List.mem_append, List.mem_cons]
    rintro (mem | rfl | mem)
    · exact longS_not_mem_chars a mem
    · exact longS_not_letter reads (lettered.2 _ List.mem_cons_self)
    · exact ih lettered.tail mem

theorem Spells.longS_not_mem (spells : Spells EitherCase cs days times?) : 'ſ' ∉ cs := by
  cases spells with
  | dated reads listed =>
    rw [List.mem_cons]
    rintro (rfl | mem)
    · exact longS_not_letter reads (by decide)
    · exact listed.longS_not_mem lettered_date mem
  | timed reads listed mark listed' =>
    rw [List.mem_cons, List.mem_append, List.mem_cons]
    rintro (rfl | mem | rfl | mem)
    · exact longS_not_letter reads (by decide)
    · exact listed.longS_not_mem lettered_date mem
    · exact longS_not_letter mark (by decide)
    · exact listed'.longS_not_mem lettered_time mem

/-- The text ends with a time mark. -/
def EndsInMark (cs : List Char) : Prop :=
  ∃ c ∈ cs.getLast?, EitherCase 'T' c

theorem short_getLast? (a : Amount) (spaces : Nat) (unit : TimeUnit) :
    (short a spaces unit).getLast? = unit.name.getLast? := by
  rw [short, List.getLast?_append_of_ne_nil, List.getLast?_append_of_ne_nil]
  · cases unit <;> decide
  · cases unit <;> simp [TimeUnit.name]

theorem Lists.not_endsInMark (listed : Lists EitherCase units cs parts) (someParts : parts ≠ [])
    (others : ∀ mark ∈ units, mark.1 ≠ 'T') (front : List Char) : ¬EndsInMark (front ++ cs) := by
  obtain ⟨c, last, mark, mem, reads⟩ := listed.getLast? someParts
  rintro ⟨d, last', reads'⟩
  rw [List.getLast?_append, last, Option.some_or] at last'
  obtain rfl := Option.some.inj last'
  exact others mark mem (reads.symm.trans reads')

/-- A text of the standard neither ends with a time mark nor has a long s. -/
theorem Standard.ends (standard : Standard cs) : ¬EndsInMark cs ∧ 'ſ' ∉ cs := by
  cases standard with
  | short a spaces unit =>
    constructor
    · rintro ⟨c, last, reads⟩
      rw [short_getLast?] at last
      cases unit <;> cases last <;> exact absurd reads (by decide)
    · rw [Duration.short, List.mem_append, List.mem_append, List.mem_replicate]
      rintro (mem | ⟨-, blank⟩ | mem)
      · exact longS_not_mem_chars a mem
      · exact absurd blank (by decide)
      · cases unit <;> exact absurd mem (by decide)
  | @components _ days times? spells someParts marked =>
    refine ⟨?_, spells.longS_not_mem⟩
    cases spells with
    | @dated p cs _ reads listed =>
      have here : days ≠ [] := by simpa using someParts
      exact listed.not_endsInMark here (by decide) [p]
    | @timed p t cs cs' _ times reads listed mark listed' =>
      have here : times ≠ [] := by simpa using marked
      have joined : p :: (cs ++ t :: cs') = (p :: cs ++ [t]) ++ cs' := by simp
      rw [joined]
      exact listed'.not_endsInMark here (by decide) _

/-- A text that is read is one of the standard if it neither ends with a time mark nor has a long s. -/
theorem Written.standard (written : Written cs parts) (unmarked : ¬EndsInMark cs) (noLongS : 'ſ' ∉ cs) :
    Standard cs := by
  cases written with
  | short a spaces unit => exact .short a spaces unit
  | @components _ days times? spells someParts =>
    have ascii : ∀ letter, ∀ c ∈ cs, ReadAs letter c → EitherCase letter c := by
      intro letter c mem reads
      refine (readAs_iff.mp reads).resolve_right ?_
      rintro ⟨-, rfl⟩
      exact noLongS mem
    refine .components (spells.imp ascii) someParts ?_
    rintro rfl
    cases spells with
    | @timed p t cs cs' _ _ reads listed mark listed' =>
      obtain rfl := listed'.eq_nil
      have last : (p :: (cs ++ [t])).getLast? = some t := by
        rw [← List.cons_append, List.getLast?_append_cons]
        rfl
      refine unmarked ⟨t, last, ascii _ t (List.mem_of_getLast? last) mark⟩

/-- Every text that is read has one of the forms. It is in the standard unless it ends with a time mark or
has a long s for the letter of seconds. -/
theorem standard_iff_of_parse {text : String} {d : Duration} (accepted : parseDuration text = .ok d) :
    (∃ parts, Written (Text.trim text.toList) parts) ∧
      (Standard (Text.trim text.toList) ↔
        ¬EndsInMark (Text.trim text.toList) ∧ 'ſ' ∉ Text.trim text.toList) := by
  obtain ⟨parts, written⟩ := written_of_read (mapError_ok_iff.mp accepted)
  exact ⟨⟨parts, written⟩, Standard.ends, fun ⟨unmarked, noLongS⟩ => written.standard unmarked noLongS⟩

theorem standard_iff_of_parse_minutes : Standard (Text.trim "pt1h30m".toList) := by
  have accepted : parseDuration "pt1h30m" = .ok ⟨5400000000000, by decide⟩ := by decide +kernel
  refine (standard_iff_of_parse accepted).2.mpr ⟨?_, by decide⟩
  rintro ⟨c, last, reads⟩
  cases last
  exact absurd reads (by decide)

theorem parseDuration_dangling_mark :
    (∃ d, parseDuration "P1DT" = .ok d) ∧ ¬Standard (Text.trim "P1DT".toList) := by
  refine ⟨⟨⟨86400000000000, by decide⟩, by decide +kernel⟩, fun standard => standard.ends.1 ?_⟩
  exact ⟨'T', by decide, by decide⟩

end Standard

end LayeredConfig.Duration
