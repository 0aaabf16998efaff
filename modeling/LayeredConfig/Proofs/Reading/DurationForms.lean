import LayeredConfig.Proofs.Number.Amount
import LayeredConfig.Reading

/-!
# The forms of durations

A duration is written as an amount with a unit, or by components with a letter each (`Written`). This is the
grammar of the texts that are read: the reader takes just the parts that a text was written with
(`read_of_written`), and takes no other text (`written_of_read`).
-/

namespace LayeredConfig.Duration

open Number

/-! ## The grammar -/

/-- The units of time. -/
inductive TimeUnit where
  | millisecond | second | minute | hour | day
deriving DecidableEq

namespace TimeUnit

/-- The length of a unit. -/
def nanoseconds : TimeUnit → Nat
  | .millisecond => 1000000
  | .second => 1000000000
  | .minute => 60 * 1000000000
  | .hour => 60 * 60 * 1000000000
  | .day => 24 * 60 * 60 * 1000000000

/-- The name of a unit in the short form. -/
def name : TimeUnit → List Char
  | .millisecond => ['m', 's']
  | .second => ['s']
  | .minute => ['m']
  | .hour => ['h']
  | .day => ['d']

end TimeUnit

/-- An amount of a unit. -/
abbrev Part := Amount × TimeUnit

/-- The units of the components before the time mark, with their letters. -/
def dateUnits : List (Char × TimeUnit) :=
  [('D', .day)]

/-- The units of the components behind the time mark, with their letters. -/
def timeUnits : List (Char × TimeUnit) :=
  [('H', .hour), ('M', .minute), ('S', .second)]

/-- The character is the letter of ASCII, which is given as a capital, in either case. -/
def EitherCase (letter c : Char) : Prop :=
  c.toUpper = letter

/-- The character is read as the letter. -/
def ReadAs (letter c : Char) : Prop :=
  isLetter letter c = true

instance (letter c : Char) : Decidable (EitherCase letter c) :=
  inferInstanceAs (Decidable (_ = _))

instance (letter c : Char) : Decidable (ReadAs letter c) :=
  inferInstanceAs (Decidable (_ = _))

section Forms

variable (Letter : Char → Char → Prop)

/-- A text of components in the order of their units, with its parts.

* `absent`: no component has the unit at hand.
* `present`: an amount and the letter of its unit. Only seconds have places. -/
inductive Lists : List (Char × TimeUnit) → List Char → List Part → Prop
  | done : Lists [] [] []
  | absent {mark units cs parts} : Lists units cs parts → Lists (mark :: units) cs parts
  | present {letter c unit units cs parts} (a : Amount) : Letter letter c →
      (a.places = [] ∨ unit = .second) → Lists units cs parts →
      Lists ((letter, unit) :: units) (a.chars ++ c :: cs) ((a, unit) :: parts)

/-- A text by components, with its parts.

* `dated`: there is no time mark, and so there are days at most.
* `timed`: hours, minutes and seconds stand behind the time mark. There may be none. -/
inductive Spells : List Char → List Part → Option (List Part) → Prop
  | dated {p cs days} : Letter 'P' p → Lists Letter dateUnits cs days → Spells (p :: cs) days none
  | timed {p t cs cs' days times} : Letter 'P' p → Lists Letter dateUnits cs days → Letter 'T' t →
      Lists Letter timeUnits cs' times → Spells (p :: (cs ++ t :: cs')) days (some times)

end Forms

/-- An amount, any number of spaces and a unit. -/
def short (a : Amount) (spaces : Nat) (unit : TimeUnit) : List Char :=
  a.chars ++ (List.replicate spaces ' ' ++ unit.name)

/-- The texts that are read, with their parts.

* `short`: one amount with the name of its unit.
* `components`: letters for the units, and a component somewhere. -/
inductive Written : List Char → List Part → Prop
  | short (a : Amount) (spaces : Nat) (unit : TimeUnit) : Written (short a spaces unit) [(a, unit)]
  | components {cs days times?} : Spells ReadAs cs days times? → days ++ times?.getD [] ≠ [] →
      Written cs (days ++ times?.getD [])

/-! ## Characters -/

section Characters

variable {letter letter' c : Char}

/-- A letter is read in either case. The long s is read as the letter S. -/
theorem readAs_iff : ReadAs letter c ↔ EitherCase letter c ∨ letter = 'S' ∧ c = 'ſ' := by
  simp only [ReadAs, isLetter, EitherCase, Bool.or_eq_true, Bool.and_eq_true, beq_iff_eq]

/-- No character is read as two letters. -/
theorem ReadAs.unique (reads : ReadAs letter c) (reads' : ReadAs letter' c)
    (capital : letter.isUpper = true) (capital' : letter'.isUpper = true) : letter = letter' := by
  rcases readAs_iff.mp reads with rfl | ⟨rfl, rfl⟩
  · rcases readAs_iff.mp reads' with upper | ⟨rfl, rfl⟩
    · exact upper
    · exact absurd capital (by decide)
  · rcases readAs_iff.mp reads' with rfl | ⟨rfl, -⟩
    · exact absurd capital' (by decide)
    · rfl

theorem toUpper_of_digit (digit : c.isDigit = true) : c.toUpper = c := by
  have high := (Char.isDigit_iff_toNat.mp digit).2
  unfold Char.toUpper
  rw [dif_neg]
  rintro ⟨small, -⟩
  have low : 'a'.toNat ≤ c.toNat := UInt32.le_iff_toNat_le.mp small
  exact absurd (low.trans high) (by decide)

theorem ReadAs.not_digit (reads : ReadAs letter c) (capital : letter.isUpper = true) :
    c.isDigit = false := by
  rw [← Bool.not_eq_true]
  intro digit
  rcases readAs_iff.mp reads with rfl | ⟨-, rfl⟩
  · rw [toUpper_of_digit digit] at capital
    have upper : 'A'.val ≤ c.val ∧ c.val ≤ 'Z'.val := of_decide_eq_true capital
    have low : 'A'.toNat ≤ c.toNat := UInt32.le_iff_toNat_le.mp upper.1
    have high := (Char.isDigit_iff_toNat.mp digit).2
    exact absurd (low.trans high) (by decide)
  · exact absurd digit (by decide)

theorem not_readAs_point (capital : letter.isUpper = true) : ¬ReadAs letter '.' := by
  rintro reads
  rcases readAs_iff.mp reads with rfl | ⟨-, same⟩
  · exact absurd capital (by decide)
  · exact absurd same (by decide)

end Characters

/-! ## Taking amounts -/

section Amounts

variable {places : Bool} {a : Amount} {c : Char} {cs rest amount : List Char}

/-- The text does not go on with a digit. -/
def NoDigit (cs : List Char) : Prop :=
  ∀ c ∈ cs.head?, c.isDigit = false

theorem takeWhile_of_noDigit (ends : NoDigit rest) : rest.takeWhile Char.isDigit = [] := by
  cases rest with
  | nil => rfl
  | cons c rest => exact List.takeWhile_cons_of_neg (by rw [ends c rfl]; exact Bool.false_ne_true)

theorem dropWhile_of_noDigit (ends : NoDigit rest) : rest.dropWhile Char.isDigit = rest := by
  cases rest with
  | nil => rfl
  | cons c rest => exact List.dropWhile_cons_of_neg (by rw [ends c rfl]; exact Bool.false_ne_true)

/-- Digits are taken as long as there are some. -/
theorem span_digits {digits : List Char} (allDigits : ∀ c ∈ digits, c.isDigit = true)
    (ends : NoDigit rest) :
    (digits ++ rest).takeWhile Char.isDigit = digits ∧ (digits ++ rest).dropWhile Char.isDigit = rest := by
  rw [List.takeWhile_append_of_pos allDigits, List.dropWhile_append_of_pos allDigits,
    takeWhile_of_noDigit ends, dropWhile_of_noDigit ends, List.append_nil]
  exact ⟨rfl, rfl⟩

theorem takeAmount_of_noDigit (ends : NoDigit cs) : (takeAmount places cs).1 = [] := by
  simp only [takeAmount, takeWhile_of_noDigit ends, dropWhile_of_noDigit ends]
  split
  · rw [List.isEmpty_nil, Bool.not_true, Bool.and_false, if_neg Bool.false_ne_true]
  · rfl

theorem noDigit_cons (digit : c.isDigit = false) (rest : List Char) : NoDigit (c :: rest) := by
  rintro _ ⟨⟩
  exact digit

/-- What is taken where digits end with a point and another character. -/
theorem takeAmount_point {whole more : List Char} {d : Char}
    (digits : ∀ c ∈ whole, c.isDigit = true) :
    takeAmount places (whole ++ '.' :: d :: more) =
      if places && d.isDigit && !whole.isEmpty then
        (whole ++ '.' :: (d :: more).takeWhile Char.isDigit, (d :: more).dropWhile Char.isDigit)
      else (whole, '.' :: d :: more) := by
  have ends : NoDigit ('.' :: d :: more) := noDigit_cons (by decide) _
  obtain ⟨taken, left⟩ := span_digits digits ends
  simp only [takeAmount, taken, left]

/-- An amount is taken up to its end. -/
theorem takeAmount_chars (allowed : a.places = [] ∨ places = true) (digit : c.isDigit = false)
    (point : c ≠ '.') : takeAmount places (a.chars ++ c :: rest) = (a.chars, c :: rest) := by
  have ends := noDigit_cons digit rest
  match shape : a.places with
  | [] =>
    obtain ⟨taken, left⟩ := span_digits a.whole_digits ends
    rw [a.chars_of_nil shape]
    simp only [takeAmount, taken, left]
    split
    · next same => exact absurd (List.cons.inj same).1 point
    · rfl
  | d :: more =>
    have digits : ∀ x ∈ d :: more, x.isDigit = true := shape ▸ a.places_digits
    obtain ⟨taken, left⟩ := span_digits digits ends
    have here : (places && d.isDigit && !a.whole.isEmpty) = true := by
      simpa [digits d List.mem_cons_self, a.whole_ne_nil, shape] using allowed
    rw [a.chars_of_cons shape, List.append_assoc, List.cons_append, List.cons_append,
      takeAmount_point a.whole_digits, if_pos here, ← List.cons_append, taken, left]

/-- Places that are not allowed are not taken. -/
theorem takeAmount_whole (more : a.places ≠ []) :
    takeAmount false (a.chars ++ rest) = (a.whole, '.' :: (a.places ++ rest)) := by
  obtain ⟨d, more, shape⟩ := List.exists_cons_of_ne_nil more
  rw [a.chars_of_cons shape, shape, List.append_assoc, List.cons_append, List.cons_append,
    takeAmount_point a.whole_digits]
  rfl

theorem digits_takeWhile (cs : List Char) : ∀ c ∈ cs.takeWhile Char.isDigit, c.isDigit = true :=
  List.all_eq_true.mp List.all_takeWhile

/-- What is taken is an amount. -/
theorem amount_of_takeAmount (taken : takeAmount places cs = (amount, rest))
    (nonempty : amount.isEmpty = false) :
    ∃ a : Amount, amount = a.chars ∧ cs = a.chars ++ rest ∧ (a.places = [] ∨ places = true) := by
  have joined : cs.takeWhile Char.isDigit ++ cs.dropWhile Char.isDigit = cs :=
    List.takeWhile_append_dropWhile
  have withoutPlaces (same : (cs.takeWhile Char.isDigit, cs.dropWhile Char.isDigit) = (amount, rest)) :
      ∃ a : Amount, amount = a.chars ∧ cs = a.chars ++ rest ∧ (a.places = [] ∨ places = true) := by
    obtain ⟨rfl, rfl⟩ := Prod.mk.inj same
    let a : Amount := ⟨_, [], List.isEmpty_eq_false_iff.mp nonempty, digits_takeWhile cs,
      fun _ mem => nomatch mem⟩
    have chars : a.chars = cs.takeWhile Char.isDigit := Amount.chars_of_nil rfl
    exact ⟨a, chars.symm, by rw [chars, joined], .inl rfl⟩
  simp only [takeAmount] at taken
  split at taken
  · next d more shape =>
    split at taken
    · next here =>
      simp only [Bool.and_eq_true, Bool.not_eq_true'] at here
      obtain ⟨⟨allowed, digit⟩, some⟩ := here
      obtain ⟨rfl, rfl⟩ := Prod.mk.inj taken
      let a : Amount := ⟨_, _, List.isEmpty_eq_false_iff.mp some, digits_takeWhile cs,
        digits_takeWhile (d :: more)⟩
      have chars : a.chars = cs.takeWhile Char.isDigit ++ '.' :: (d :: more).takeWhile Char.isDigit := by
        have places : a.places = d :: more.takeWhile Char.isDigit := List.takeWhile_cons_of_pos digit
        rw [Amount.chars_of_cons places, List.takeWhile_cons_of_pos digit]
      refine ⟨a, chars.symm, ?_, .inr allowed⟩
      rw [chars, List.append_assoc, List.cons_append, List.takeWhile_append_dropWhile, ← shape, joined]
    · exact withoutPlaces taken
  · exact withoutPlaces taken

end Amounts

/-! ## Taking components -/

section Components

variable {letter c : Char} {unit : TimeUnit} {units : List (Char × TimeUnit)} {cs rest : List Char}
  {parts : List Part}

/-- A component that may stand in a text. -/
def component (mark : Char × TimeUnit) : Component :=
  ⟨mark.1, mark.2.nanoseconds, mark.2 = .second⟩

/-- A part as it is taken off a text. -/
def taken (part : Part) : List Char × Nat :=
  (part.1.chars, part.2.nanoseconds)

/-- The letters are different capitals. -/
def Lettered (units : List (Char × TimeUnit)) : Prop :=
  units.Pairwise (·.1 ≠ ·.1) ∧ ∀ mark ∈ units, mark.1.isUpper = true

theorem Lettered.tail {mark : Char × TimeUnit} (lettered : Lettered (mark :: units)) : Lettered units :=
  ⟨lettered.1.of_cons, fun _ mem => lettered.2 _ (List.mem_cons_of_mem _ mem)⟩

/-- A component is taken off a text if an amount with its letter behind it is. -/
theorem take?_eq_some_iff {component : Component} {amount : List Char} :
    component.take? cs = some (amount, rest) ↔
      ∃ c, takeAmount component.places cs = (amount, c :: rest) ∧ amount.isEmpty = false ∧
        ReadAs component.letter c := by
  unfold Component.take?
  match amountTaken : takeAmount component.places cs with
  | (amount', []) => simp
  | (amount', c :: rest') =>
    simp only [Prod.mk.injEq, List.cons.injEq]
    constructor
    · intro here
      split at here
      · cases here
      · next nonempty =>
        split at here
        · next reads =>
          cases here
          exact ⟨c, ⟨rfl, rfl, rfl⟩, Bool.eq_false_iff.mpr nonempty, reads⟩
        · cases here
    · rintro ⟨_, ⟨rfl, rfl, rfl⟩, nonempty, reads⟩
      rw [nonempty, if_neg Bool.false_ne_true]
      exact if_pos reads

/-- A component is taken with its letter. -/
theorem take?_present (a : Amount) (reads : ReadAs letter c) (capital : letter.isUpper = true)
    (allowed : a.places = [] ∨ unit = .second) (rest : List Char) :
    (component (letter, unit)).take? (a.chars ++ c :: rest) = some (a.chars, rest) := by
  have point : c ≠ '.' := by
    rintro rfl
    exact not_readAs_point capital reads
  have places : a.places = [] ∨ (component (letter, unit)).places = true :=
    allowed.imp_right decide_eq_true
  exact take?_eq_some_iff.mpr
    ⟨c, takeAmount_chars places (reads.not_digit capital) point, a.chars_nonempty, reads⟩

/-- The character behind an amount that is taken stands behind the amount or is a point. -/
theorem next_of_takeAmount {places : Bool} {a : Amount} {amount : List Char} {c d : Char} {rest' : List Char}
    (digit : c.isDigit = false) (point : c ≠ '.')
    (taken : takeAmount places (a.chars ++ c :: rest) = (amount, d :: rest')) : d = c ∨ d = '.' := by
  by_cases allowed : a.places = [] ∨ places = true
  · rw [takeAmount_chars allowed digit point] at taken
    exact .inl (List.cons.inj (Prod.mk.inj taken).2).1.symm
  · obtain ⟨more, notAllowed⟩ := not_or.mp allowed
    rw [Bool.not_eq_true] at notAllowed
    rw [notAllowed, takeAmount_whole more] at taken
    exact .inr (List.cons.inj (Prod.mk.inj taken).2).1.symm

/-- A component is not taken from others. -/
theorem take?_absent (listed : Lists ReadAs units cs parts) (capital : letter.isUpper = true)
    (others : ∀ mark ∈ units, letter ≠ mark.1 ∧ mark.1.isUpper = true) (ends : NoDigit rest) :
    (component (letter, unit)).take? (cs ++ rest) = none := by
  rw [Option.eq_none_iff_forall_ne_some]
  rintro ⟨amount, left⟩ here
  obtain ⟨d, amountTaken, nonempty, reads⟩ := take?_eq_some_iff.mp here
  -- the first component that is there decides: its amount ends before its own letter, or at a point where
  -- places are not allowed
  induction listed with
  | done =>
    have nothing : amount = [] := (congrArg Prod.fst amountTaken).symm.trans (takeAmount_of_noDigit ends)
    rw [nothing] at nonempty
    exact Bool.noConfusion nonempty
  | absent _ ih => exact ih (List.forall_mem_cons.mp others).2 here amountTaken
  | @present letter' c _ _ _ _ a reads' allowed _ =>
    obtain ⟨other, capital'⟩ := others _ List.mem_cons_self
    have point : c ≠ '.' := by
      rintro rfl
      exact not_readAs_point capital' reads'
    rw [List.append_assoc, List.cons_append] at amountTaken
    rcases next_of_takeAmount (reads'.not_digit capital') point amountTaken with rfl | rfl
    · exact other (reads.unique reads' capital capital')
    · exact not_readAs_point capital reads

/-- The components of a list are taken, up to what does not begin with a digit. -/
theorem takeComponents_of_lists (listed : Lists ReadAs units cs parts) (lettered : Lettered units)
    (ends : NoDigit rest) :
    takeComponents (units.map component) (cs ++ rest) = (parts.map taken, rest) := by
  induction listed with
  | done => rfl
  | absent listed ih =>
    have others := fun mark mem =>
      And.intro (List.rel_of_pairwise_cons lettered.1 mem) (lettered.tail.2 mark mem)
    rw [List.map_cons, takeComponents,
      take?_absent listed (lettered.2 _ List.mem_cons_self) others ends]
    exact ih lettered.tail
  | present a reads allowed listed ih =>
    have capital := lettered.2 _ List.mem_cons_self
    rw [List.map_cons, takeComponents, List.append_assoc, List.cons_append,
      take?_present a reads capital allowed]
    simp only
    rw [ih lettered.tail]
    rfl

/-- What is taken is a list of components. -/
theorem lists_of_takeComponents {amounts : List (List Char × Nat)}
    (same : takeComponents (units.map component) cs = (amounts, rest)) :
    ∃ front parts, Lists ReadAs units front parts ∧ cs = front ++ rest ∧ amounts = parts.map taken := by
  induction units generalizing cs amounts rest with
  | nil =>
    obtain ⟨rfl, rfl⟩ := Prod.mk.inj same
    exact ⟨[], [], .done, rfl, rfl⟩
  | cons mark units ih =>
    rw [List.map_cons, takeComponents] at same
    split at same
    · next amount left here =>
      obtain ⟨c, amountTaken, nonempty, reads⟩ := take?_eq_some_iff.mp here
      obtain ⟨a, rfl, rfl, allowed⟩ := amount_of_takeAmount amountTaken nonempty
      rcases behind : takeComponents (units.map component) left with ⟨more, rest'⟩
      rw [behind] at same
      obtain ⟨rfl, rfl⟩ := Prod.mk.inj same
      obtain ⟨front, parts, listed, rfl, rfl⟩ := ih behind
      have places : a.places = [] ∨ mark.2 = .second := allowed.imp_right of_decide_eq_true
      refine ⟨a.chars ++ c :: front, (a, mark.2) :: parts, .present a reads places listed, ?_, rfl⟩
      rw [List.append_assoc, List.cons_append]
    · obtain ⟨front, parts, listed, shape⟩ := ih same
      exact ⟨front, parts, .absent listed, shape⟩

end Components

/-! ## Reading a text -/

section Whole

variable {cs : List Char} {days parts : List Part} {times? : Option (List Part)}

theorem lettered_date : Lettered dateUnits := by
  unfold Lettered dateUnits
  decide

theorem lettered_time : Lettered timeUnits := by
  unfold Lettered timeUnits
  decide

theorem dateComponents_eq : dateComponents = dateUnits.map component := rfl

theorem timeComponents_eq : timeComponents = timeUnits.map component := rfl

/-- The amounts of a text by components are those it was written with. -/
theorem components?_of_spells (spells : Spells ReadAs cs days times?)
    (someParts : days ++ times?.getD [] ≠ []) :
    components? cs = some ((days ++ times?.getD []).map taken) := by
  cases spells with
  | @dated p cs days reads listed =>
    have whole := takeComponents_of_lists listed lettered_date (fun _ mem => nomatch mem : NoDigit [])
    rw [List.append_nil] at whole
    have nonempty : (days.map taken ++ []).isEmpty = false := by simpa using someParts
    unfold components?
    simp only [dateComponents_eq, whole]
    rw [reads, Bool.not_true, if_neg Bool.false_ne_true, nonempty]
    simp
  | @timed p t cs cs' days times reads listed mark listed' =>
    have front := takeComponents_of_lists listed lettered_date
      (noDigit_cons (mark.not_digit (by decide)) cs')
    have back := takeComponents_of_lists listed' lettered_time (fun _ mem => nomatch mem : NoDigit [])
    rw [List.append_nil] at back
    have nonempty : (days.map taken ++ times.map taken).isEmpty = false := by simpa using someParts
    unfold components?
    simp only [dateComponents_eq, front]
    rw [reads, Bool.not_true, if_neg Bool.false_ne_true, mark, if_pos rfl, timeComponents_eq, back]
    simp only
    rw [nonempty]
    simp

/-- A text by components is written by components. -/
theorem spells_of_components? {amounts : List (List Char × Nat)} (read : components? cs = some amounts) :
    ∃ days times?, Spells ReadAs cs days times? ∧ days ++ times?.getD [] ≠ [] ∧
      amounts = (days ++ times?.getD []).map taken := by
  unfold components? at read
  split at read
  · cases read
  · next p cs =>
    split at read
    · cases read
    · next mark =>
      have reads : ReadAs 'P' p := by simpa [ReadAs] using mark
      rcases front : takeComponents (dateUnits.map component) cs with ⟨dates, rest⟩
      obtain ⟨cs, days, listed, rfl, rfl⟩ := lists_of_takeComponents front
      rw [dateComponents_eq, front] at read
      match rest with
      | [] =>
        simp only [List.append_nil] at read ⊢
        obtain ⟨accepted, ⟨⟩⟩ := Option.ite_none_right_eq_some.mp read
        refine ⟨days, none, .dated reads listed, ?_, by simp⟩
        simpa using accepted
      | t :: rest =>
        simp only at read
        by_cases mark : isLetter 'T' t = true
        · rcases back : takeComponents (timeUnits.map component) rest with ⟨amounts', rest'⟩
          obtain ⟨cs', times, listed', rfl, rfl⟩ := lists_of_takeComponents back
          rw [if_pos mark, timeComponents_eq, back] at read
          obtain ⟨accepted, ⟨⟩⟩ := Option.ite_none_right_eq_some.mp read
          obtain ⟨rfl, nonempty⟩ : rest' = [] ∧ (days = [] → times ≠ []) := by simpa using accepted
          rw [List.append_nil]
          refine ⟨days, some times, .timed reads listed mark listed', ?_, by simp⟩
          simpa using nonempty
        · rw [if_neg mark] at read
          exact absurd read (by simp)

/-- The duration of parts. -/
def duration? (parts : List Part) : Option Duration := do
  let amounts ← parts.mapM fun part => scaled part.1.chars part.2.nanoseconds
  let total ← amounts.foldlM Decimal.addMagnitudes Decimal.zero
  ofNanoseconds? total

theorem duration?_single (a : Amount) (unit : TimeUnit) :
    duration? [(a, unit)] = (scaled a.chars unit.nanoseconds).bind ofNanoseconds? := by
  simp only [duration?, List.mapM_cons, List.mapM_nil]
  cases scaled a.chars unit.nanoseconds <;> rfl

theorem unit?_name (unit : TimeUnit) : unit? unit.name = some unit.nanoseconds := by
  cases unit <;> decide

theorem name_of_unit? {name : List Char} {n : Nat} (known : unit? name = some n) :
    ∃ unit : TimeUnit, name = unit.name := by
  unfold unit? at known
  split at known
  · next same => exact ⟨.millisecond, same⟩
  · split at known
    · next same => exact ⟨.second, same⟩
    · split at known
      · next same => exact ⟨.minute, same⟩
      · split at known
        · next same => exact ⟨.hour, same⟩
        · split at known
          · next same => exact ⟨.day, same⟩
          · cases known

theorem dropSpaces (spaces : Nat) (unit : TimeUnit) :
    (List.replicate spaces ' ' ++ unit.name).dropWhile (· == ' ') = unit.name := by
  rw [List.dropWhile_append_of_pos (fun c mem => beq_iff_eq.mpr (List.eq_of_mem_replicate mem))]
  cases unit <;> rfl

theorem exists_spaces (cs : List Char) :
    ∃ spaces, cs = List.replicate spaces ' ' ++ cs.dropWhile (· == ' ') := by
  have blanks : cs.takeWhile (· == ' ') = List.replicate (cs.takeWhile (· == ' ')).length ' ' :=
    List.eq_replicate_of_mem fun c mem => beq_iff_eq.mp (List.all_eq_true.mp List.all_takeWhile c mem)
  exact ⟨_, by rw [← blanks, List.takeWhile_append_dropWhile]⟩

theorem readShort?_short (a : Amount) (spaces : Nat) (unit : TimeUnit) :
    readShort? (short a spaces unit) = duration? [(a, unit)] := by
  have behind : ∃ c rest, List.replicate spaces ' ' ++ unit.name = c :: rest ∧ c.isDigit = false ∧
      c ≠ '.' := by
    cases spaces with
    | zero => cases unit <;> exact ⟨_, _, rfl, by decide, by decide⟩
    | succ spaces => exact ⟨' ', _, rfl, by decide, by decide⟩
  obtain ⟨c, rest, shape, digit, point⟩ := behind
  have amount : takeAmount true (short a spaces unit) =
      (a.chars, List.replicate spaces ' ' ++ unit.name) := by
    rw [short, shape]
    exact takeAmount_chars (.inr rfl) digit point
  unfold readShort?
  rw [amount, duration?_single]
  simp only [a.chars_nonempty, Bool.false_eq_true, if_false, dropSpaces, unit?_name]
  rfl

theorem short_of_readShort? {d : Duration} (read : readShort? cs = some d) :
    ∃ a spaces unit, cs = short a spaces unit := by
  unfold readShort? at read
  rcases amountTaken : takeAmount true cs with ⟨amount, rest⟩
  rw [amountTaken] at read
  simp only at read
  split at read
  · cases read
  · next nonempty =>
    obtain ⟨a, rfl, rfl, -⟩ := amount_of_takeAmount amountTaken (Bool.eq_false_iff.mpr nonempty)
    obtain ⟨n, known, -⟩ := Option.bind_eq_some_iff.mp read
    obtain ⟨unit, name⟩ := name_of_unit? known
    obtain ⟨spaces, shape⟩ := exists_spaces rest
    exact ⟨a, spaces, unit, by rw [short, ← name, ← shape]⟩

theorem short_head (a : Amount) (spaces : Nat) (unit : TimeUnit) :
    ∃ c rest, short a spaces unit = c :: rest ∧ c.isDigit = true := by
  obtain ⟨c, rest, shape, digit⟩ := exists_cons_digit a.whole_digits a.whole_ne_nil
  exact ⟨c, _, by rw [short, Amount.chars, shape]; rfl, digit⟩

theorem Spells.head {Letter : Char → Char → Prop} (spells : Spells Letter cs days times?) :
    ∃ p rest, cs = p :: rest ∧ Letter 'P' p := by
  cases spells with
  | dated reads => exact ⟨_, _, rfl, reads⟩
  | timed reads => exact ⟨_, _, rfl, reads⟩

/-- No text has both forms. -/
theorem not_spells_short (a : Amount) (spaces : Nat) (unit : TimeUnit) :
    ¬Spells ReadAs (short a spaces unit) days times? := by
  intro spells
  obtain ⟨c, rest, shape, digit⟩ := short_head a spaces unit
  obtain ⟨p, rest', shape', reads⟩ := spells.head
  obtain ⟨rfl, -⟩ := List.cons.inj (shape.symm.trans shape')
  exact Bool.false_ne_true ((reads.not_digit (by decide)).symm.trans digit)

theorem readComponents?_of_spells (spells : Spells ReadAs cs days times?)
    (someParts : days ++ times?.getD [] ≠ []) :
    readComponents? cs = duration? (days ++ times?.getD []) := by
  unfold readComponents? duration?
  rw [components?_of_spells spells someParts, Option.bind_eq_bind, Option.bind_some, List.mapM_map]
  rfl

/-- What is read from a text depends on its parts only. -/
theorem read_of_written {text : String} (written : Written (Text.trim text.toList) parts) :
    read text = match duration? parts with
      | some d => .ok d
      | none => .error .invalid := by
  unfold read
  generalize Text.trim text.toList = cs at written
  cases written with
  | short a spaces unit =>
    obtain ⟨c, rest, shape, digit⟩ := short_head a spaces unit
    have noMinus : (short a spaces unit).head? ≠ some '-' := by
      rw [shape, List.head?_cons]
      rintro ⟨⟩
      exact absurd digit (by decide)
    have others : readComponents? (short a spaces unit) = none := by
      rw [Option.eq_none_iff_forall_ne_some]
      intro d here
      obtain ⟨amounts, found, -⟩ := Option.bind_eq_some_iff.mp here
      obtain ⟨days, times?, spells, -⟩ := spells_of_components? found
      exact not_spells_short a spaces unit spells
    cases made : duration? [(a, unit)] <;> simp only [if_neg noMinus, readShort?_short, others, made]
  | components spells someParts =>
    obtain ⟨p, rest, shape, reads⟩ := spells.head
    -- the short form is tried first, and does not take a text that begins with a letter
    have noMinus : cs.head? ≠ some '-' := by
      rw [shape, List.head?_cons]
      rintro ⟨⟩
      exact absurd reads (by decide)
    have others : readShort? cs = none := by
      rw [Option.eq_none_iff_forall_ne_some]
      intro d here
      obtain ⟨a, spaces, unit, rfl⟩ := short_of_readShort? here
      exact not_spells_short a spaces unit spells
    rw [← readComponents?_of_spells spells someParts]
    cases made : readComponents? cs <;> simp only [if_neg noMinus, others, made]

/-- What is read is written in one of the forms. -/
theorem written_of_read {text : String} {d : Duration} (accepted : read text = .ok d) :
    ∃ parts, Written (Text.trim text.toList) parts := by
  unfold read at accepted
  simp only at accepted
  split at accepted
  · cases accepted
  · split at accepted
    · next here =>
      obtain ⟨a, spaces, unit, shape⟩ := short_of_readShort? here
      exact ⟨[(a, unit)], shape ▸ .short a spaces unit⟩
    · split at accepted
      · next here =>
        obtain ⟨amounts, found, -⟩ := Option.bind_eq_some_iff.mp here
        obtain ⟨days, times?, spells, someParts, -⟩ := spells_of_components? found
        exact ⟨_, .components spells someParts⟩
      · cases accepted

end Whole

end LayeredConfig.Duration
