import LayeredConfig.Proofs.Path.RoundTrip

/-!
# The normal form of a path text

A point directly in front of a bracket and the leading zeros of an index can be left out of a path text
without a change to what it is read as. `normalText` leaves them out, in one pass over the characters.

* `parse_eq_ok_iff_normalText`: a text is read as a path exactly when its normal form is the text of that
  path.
* `normalText_eq_self_iff`: the texts that are their own normal form.
-/

namespace LayeredConfig.Path

/-- Can the character `c` be left out in front of `d`? `opened` says whether `c` is the first character of
an index, apart from what was left out. -/
def isSuperfluous (opened : Bool) (c d : Char) : Bool :=
  c == '.' && d == '[' || opened && c == '0' && d.isDigit

/-- Leaves out the characters that can be left out. `opened` is true right behind a bracket. -/
def tidy (opened : Bool) : List Char → List Char
  | [] => []
  | c :: rest =>
    if rest.head?.any (isSuperfluous opened c) then tidy opened rest
    else c :: tidy (c == '[') rest

/-- The characters of a path text without those that can be left out. The first one always stays. -/
def normalChars : List Char → List Char
  | [] => []
  | c :: rest => c :: tidy (c == '[') rest

/-- A path text without the characters that can be left out. -/
def normalText (input : String) : String :=
  String.ofList (normalChars input.toList)

/-- A point stands directly in front of a bracket. -/
def HasLoosePoint (cs : List Char) : Prop :=
  ['.', '['] <:+: cs

/-- An index starts with a zero and goes on. -/
def HasLeadingZero (cs : List Char) : Prop :=
  ∃ d : Char, d.isDigit = true ∧ ['[', '0', d] <:+: cs

namespace NormalFormLemmas

/-! ## One character -/

theorem isSuperfluous_eq_true_iff {opened : Bool} {c d : Char} :
    isSuperfluous opened c d = true ↔
      c = '.' ∧ d = '[' ∨ opened = true ∧ c = '0' ∧ d.isDigit = true := by
  simp [isSuperfluous, and_assoc]

theorem tidy_kept {opened : Bool} {c : Char} {rest : List Char}
    (kept : ∀ d ∈ rest.head?, isSuperfluous opened c d = false) :
    tidy opened (c :: rest) = c :: tidy (c == '[') rest := by
  rw [tidy, if_neg]
  rw [Bool.not_eq_true, Option.any_eq_false]
  simpa using kept

theorem tidy_dropped {opened : Bool} {c d : Char} {rest : List Char}
    (dropped : isSuperfluous opened c d = true) :
    tidy opened (c :: d :: rest) = tidy opened (d :: rest) := by
  rw [tidy, if_pos]
  simpa using dropped

theorem tidy_bracket (opened : Bool) (rest : List Char) :
    tidy opened ('[' :: rest) = '[' :: tidy true rest :=
  tidy_kept fun d _ => by simp [isSuperfluous]

/-- Away from a bracket, only points can be left out. -/
theorem tidy_plain {c : Char} (noPoint : c ≠ '.') (rest : List Char) :
    tidy false (c :: rest) = c :: tidy (c == '[') rest :=
  tidy_kept fun d _ => by simp [isSuperfluous, noPoint]

/-- The characters of names and indexes are kept. -/
theorem tidy_plain_append {cs : List Char} (plain : ∀ c ∈ cs, c ≠ '.' ∧ c ≠ '[' ∧ c ≠ ']')
    (rest : List Char) : tidy false (cs ++ rest) = cs ++ tidy false rest := by
  induction cs with
  | nil => rfl
  | cons c cs ih =>
    obtain ⟨here, later⟩ := List.forall_mem_cons.mp plain
    have closed : (c == '[') = false := by simpa using here.2.1
    rw [List.cons_append, tidy_plain here.1, closed, ih later, List.cons_append]

/-! ## Numerals -/

theorem exists_digitChar {c : Char} (digit : c.isDigit = true) : ∃ v < 10, c = v.digitChar := by
  obtain ⟨low, high⟩ : 48 ≤ c.toNat ∧ c.toNat ≤ 57 := Char.isDigit_iff_toNat.mp digit
  refine ⟨c.toNat - 48, by omega, Char.toNat_inj.mp ?_⟩
  rw [Nat.toNat_digitChar_of_lt_ten (by omega)]
  omega

/-- Behind a number that is not zero, digits are read as they would be written. -/
theorem toDigits_ofDigitChars {digits : List Char} (allDigits : ∀ c ∈ digits, c.isDigit = true)
    {k : Nat} (positive : 0 < k) :
    Nat.toDigits 10 (Nat.ofDigitChars 10 digits k) = Nat.toDigits 10 k ++ digits := by
  induction digits generalizing k with
  | nil => rw [Nat.ofDigitChars_nil, List.append_nil]
  | cons c digits ih =>
    obtain ⟨here, later⟩ := List.forall_mem_cons.mp allDigits
    obtain ⟨v, small, rfl⟩ := exists_digitChar here
    have append : Nat.toDigits 10 (10 * k + v) = Nat.toDigits 10 k ++ [v.digitChar] := by
      rw [← Nat.toDigits_append_toDigits (by decide) positive small, Nat.toDigits_of_lt_base small]
    calc
      Nat.toDigits 10 (Nat.ofDigitChars 10 (v.digitChar :: digits) k)
          = Nat.toDigits 10 (Nat.ofDigitChars 10 digits (10 * k + v)) := by
        rw [Nat.ofDigitChars_cons_digitChar_of_lt_ten small]
      _ = Nat.toDigits 10 (10 * k + v) ++ digits := ih later (by omega)
      _ = Nat.toDigits 10 k ++ v.digitChar :: digits := by rw [append, List.append_assoc]; rfl

/-- Digits that do not start with a zero are what is written for their number. -/
theorem toDigits_ofDigitChars_of_ne_zero {c : Char} {digits : List Char} (digit : c.isDigit = true)
    (notZero : c ≠ '0') (allDigits : ∀ d ∈ digits, d.isDigit = true) :
    Nat.toDigits 10 (Nat.ofDigitChars 10 (c :: digits) 0) = c :: digits := by
  obtain ⟨v, small, rfl⟩ := exists_digitChar digit
  have positive : 0 < v := Nat.pos_of_ne_zero fun zero => notZero (by rw [zero]; rfl)
  rw [Nat.ofDigitChars_cons_digitChar_of_lt_ten small, Nat.mul_zero, Nat.zero_add,
    toDigits_ofDigitChars allDigits positive, Nat.toDigits_of_lt_base small]
  rfl

/-- What is left of the digits of an index is what is written for it. -/
theorem tidy_digits {digits : List Char} (someDigit : digits ≠ [])
    (allDigits : ∀ c ∈ digits, c.isDigit = true) (rest : List Char) :
    tidy true (digits ++ ']' :: rest) =
      Nat.toDigits 10 (Nat.ofDigitChars 10 digits 0) ++ ']' :: tidy false rest := by
  induction digits with
  | nil => exact absurd rfl someDigit
  | cons c digits ih =>
    obtain ⟨here, later⟩ := List.forall_mem_cons.mp allDigits
    have closed : (c == '[') = false := by simpa using (ne_of_isDigit here).2.1
    have kept : tidy false (digits ++ ']' :: rest) = digits ++ ']' :: tidy false rest := by
      rw [tidy_plain_append fun d mem => ne_of_isDigit (later d mem), tidy_plain (by decide)]
      rfl
    by_cases zero : c = '0'
    · subst zero
      cases digits with
      | nil =>
        rw [List.cons_append, tidy_kept (by simp [isSuperfluous]), closed, kept]
        rfl
      | cons d digits =>
        -- this zero is left out, and does not count in the number either
        have next := later d List.mem_cons_self
        rw [List.cons_append, List.cons_append, tidy_dropped (by simp [isSuperfluous, next]),
          ← List.cons_append, ih (List.cons_ne_nil _ _) later, Nat.ofDigitChars_cons]
        rfl
    · have keepsHere : ∀ d, isSuperfluous true c d = false := fun d => by
        simp [isSuperfluous, zero, (ne_of_isDigit here).1]
      rw [List.cons_append, tidy_kept fun d _ => keepsHere d, closed, kept,
        toDigits_ofDigitChars_of_ne_zero here zero later]
      rfl

theorem tidy_numeral {digits : List Char} {i : Nat} (numeral : Numeral digits i) (rest : List Char) :
    tidy true (digits ++ ']' :: rest) = Nat.toDigits 10 i ++ ']' :: tidy false rest := by
  rw [tidy_digits numeral.someDigit numeral.allDigits, numeral.value]

/-! ## Every way to write a path has the text of the path as its normal form -/

theorem tidy_of_spells {p : Path} {cs : List Char} (spells : Spells p cs) :
    tidy false cs = p.flatMap Step.text := by
  induction spells with
  | done => rfl
  | @name n rest cs isName _ ih =>
    have kept : tidy false ('.' :: (n.toList ++ cs)) = '.' :: tidy false (n.toList ++ cs) := by
      refine tidy_kept fun d mem => ?_
      -- the point stays, since a name is not empty and starts with no bracket
      obtain ⟨c, m, name⟩ := List.exists_cons_of_ne_nil isName.toList_ne_nil
      rw [name, List.cons_append, List.head?_cons, Option.mem_some_iff] at mem
      have notBracket := (isName.ne_of_mem (name ▸ List.mem_cons_self : c ∈ n.toList)).2.1
      simp [isSuperfluous, ← mem, notBracket]
    rw [kept, tidy_plain_append fun c mem => isName.ne_of_mem mem, ih]
    rfl
  | index numeral _ ih =>
    rw [tidy_bracket, tidy_numeral numeral, ih]
    simp [Step.text]
  | pointed numeral _ ih =>
    rw [tidy_dropped (by decide), tidy_bracket, tidy_numeral numeral, ih]
    simp [Step.text]

theorem normalChars_of_written {p : Path} {cs : List Char} (written : Written p cs) :
    normalChars cs = p.chars := by
  rcases written with ⟨rfl, rfl⟩ | spells
  · rfl
  · generalize shape : '.' :: cs = text at spells
    cases spells with
    | done => cases shape
    | @name n rest cs' isName later =>
      cases shape
      obtain ⟨c, m, name⟩ := List.exists_cons_of_ne_nil isName.toList_ne_nil
      have plain : ∀ d ∈ c :: m, d ≠ '.' ∧ d ≠ '[' ∧ d ≠ ']' :=
        fun d mem => isName.ne_of_mem (name ▸ mem)
      obtain ⟨here, others⟩ := List.forall_mem_cons.mp plain
      have closed : (c == '[') = false := by simpa using here.2.1
      rw [name, List.cons_append, normalChars, closed, tidy_plain_append others,
        tidy_of_spells later, chars, name, List.cons_append]
    | index numeral later => exact absurd (List.cons.inj shape).1 (by decide)
    | pointed numeral later =>
      cases shape
      show '[' :: tidy true _ = _
      rw [tidy_numeral numeral, tidy_of_spells later]
      simp [chars, Step.text]

/-! ## Every text with that normal form is a way to write the path -/

theorem tidy_eq_nil {opened : Bool} {cs : List Char} (nothing : tidy opened cs = []) : cs = [] := by
  induction cs with
  | nil => rfl
  | cons c rest ih =>
    rw [tidy] at nothing
    split at nothing
    · next dropped =>
      rw [ih nothing] at dropped
      cases dropped
    · cases nothing

/-- The first character is left out in front of the next one, or it was kept. -/
theorem tidy_cons_cases {opened : Bool} {c d : Char} {rest t : List Char}
    (tidied : tidy opened (c :: rest) = d :: t) :
    (∃ e more, rest = e :: more ∧ isSuperfluous opened c e = true ∧ tidy opened (e :: more) = d :: t) ∨
      c = d ∧ tidy (c == '[') rest = t := by
  rw [tidy] at tidied
  split at tidied
  · next dropped =>
    cases rest with
    | nil => cases dropped
    | cons e more => exact .inl ⟨e, more, rfl, by simpa using dropped, tidied⟩
  · exact .inr (List.cons.inj tidied)

/-- Away from a bracket, a character was kept, or it is a bracket with a point in front. -/
theorem tidy_false_eq_cons {c : Char} {cs t : List Char} (tidied : tidy false cs = c :: t) :
    ∃ rest, (cs = c :: rest ∨ c = '[' ∧ cs = '.' :: '[' :: rest) ∧ tidy (c == '[') rest = t := by
  cases cs with
  | nil => cases tidied
  | cons d rest =>
    rcases tidy_cons_cases tidied with ⟨e, more, rfl, superfluous, behind⟩ | ⟨rfl, behind⟩
    · rcases isSuperfluous_eq_true_iff.mp superfluous with ⟨rfl, rfl⟩ | ⟨opened, -⟩
      · rw [tidy_bracket] at behind
        cases behind
        exact ⟨more, .inr ⟨rfl, rfl⟩, rfl⟩
      · cases opened
    · exact ⟨rest, .inl rfl, behind⟩

theorem tidy_false_eq_append {m cs t : List Char} (plain : ∀ c ∈ m, c ≠ '[')
    (tidied : tidy false cs = m ++ t) : ∃ rest, cs = m ++ rest ∧ tidy false rest = t := by
  induction m generalizing cs with
  | nil => exact ⟨cs, rfl, tidied⟩
  | cons c m ih =>
    obtain ⟨here, later⟩ := List.forall_mem_cons.mp plain
    obtain ⟨others, rfl | ⟨bracket, -⟩, behind⟩ := tidy_false_eq_cons tidied
    · rw [show (c == '[') = false by simpa using here] at behind
      obtain ⟨rest, rfl, last⟩ := ih later behind
      exact ⟨rest, rfl, last⟩
    · exact absurd bracket here

/-- Behind a bracket, there may have been zeros in front of a digit. -/
theorem tidy_true_eq_digit {c : Char} {cs t : List Char} (digit : c.isDigit = true)
    (tidied : tidy true cs = c :: t) :
    ∃ k rest, cs = List.replicate k '0' ++ c :: rest ∧ tidy false rest = t := by
  have notBracket := (ne_of_isDigit digit).2.1
  induction cs with
  | nil => cases tidied
  | cons d rest ih =>
    rcases tidy_cons_cases tidied with ⟨e, more, rfl, superfluous, behind⟩ | ⟨rfl, behind⟩
    · rcases isSuperfluous_eq_true_iff.mp superfluous with ⟨-, rfl⟩ | ⟨-, rfl, -⟩
      · rw [tidy_bracket] at behind
        exact absurd (List.cons.inj behind).1.symm notBracket
      · obtain ⟨k, rest, zeros, behind⟩ := ih behind
        exact ⟨k + 1, rest, by rw [zeros, List.replicate_succ, List.cons_append], behind⟩
    · rw [show (d == '[') = false by simpa using notBracket] at behind
      exact ⟨0, rest, rfl, behind⟩

theorem tidy_true_eq_numeral {i : Nat} {cs t : List Char} (fits : i < indexLimit)
    (tidied : tidy true cs = Nat.toDigits 10 i ++ ']' :: t) :
    ∃ digits rest, cs = digits ++ ']' :: rest ∧ Numeral digits i ∧ tidy false rest = t := by
  have numeral := numeral_toDigits fits
  generalize Nat.toDigits 10 i = digits at numeral tidied
  obtain ⟨c, m, rfl⟩ := List.exists_cons_of_ne_nil numeral.someDigit
  obtain ⟨here, later⟩ := List.forall_mem_cons.mp numeral.allDigits
  obtain ⟨k, others, rfl, behind⟩ := tidy_true_eq_digit here tidied
  obtain ⟨closing, rfl, atEnd⟩ :=
    tidy_false_eq_append (fun d mem => (ne_of_isDigit (later d mem)).2.1) behind
  obtain ⟨rest, rfl | ⟨bracket, -⟩, last⟩ := tidy_false_eq_cons atEnd
  · -- the digits of the text are those of the index, behind the zeros that were left out
    refine ⟨List.replicate k '0' ++ c :: m, rest, by simp, ⟨by simp, ?_, ?_, fits⟩, last⟩
    · intro d mem
      rcases List.mem_append.mp mem with zero | digit
      · rw [List.eq_of_mem_replicate zero]
        rfl
      · exact numeral.allDigits d digit
    · rw [Nat.ofDigitChars_append, Nat.ofDigitChars_replicate_zero, Nat.mul_zero, numeral.value]
  · exact absurd bracket (by decide)

theorem spells_of_tidy {p : Path} {cs : List Char} (readable : p.Readable)
    (tidied : tidy false cs = p.flatMap Step.text) : Spells p cs := by
  induction p generalizing cs with
  | nil =>
    rw [tidy_eq_nil tidied]
    exact .done
  | cons step rest ih =>
    obtain ⟨here, later⟩ := List.forall_mem_cons.mp readable
    rw [List.flatMap_cons] at tidied
    cases step with
    | name n =>
      obtain ⟨cs', rfl | ⟨bracket, -⟩, behind⟩ := tidy_false_eq_cons tidied
      · obtain ⟨t, rfl, last⟩ :=
          tidy_false_eq_append (fun c mem => (IsName.ne_of_mem here mem).2.1) behind
        exact .name here (ih later last)
      · exact absurd bracket (by decide)
    | index i =>
      rw [Step.text, List.cons_append, List.append_assoc] at tidied
      obtain ⟨cs', bracket, behind⟩ := tidy_false_eq_cons tidied
      obtain ⟨digits, t, rfl, numeral, last⟩ := tidy_true_eq_numeral here behind
      rcases bracket with rfl | ⟨-, rfl⟩
      · exact .index numeral (ih later last)
      · exact .pointed numeral (ih later last)

theorem written_of_normalChars {p : Path} {cs : List Char} (readable : p.Readable)
    (normal : normalChars cs = p.chars) : Written p cs := by
  match p, cs with
  | [], [] => exact .inl ⟨rfl, rfl⟩
  | [], c :: cs => cases normal
  | .name n :: rest, [] =>
    have isName : IsName n := readable _ List.mem_cons_self
    rw [normalChars, chars] at normal
    exact absurd (List.append_eq_nil_iff.mp normal.symm).1 isName.toList_ne_nil
  | .index i :: rest, [] => cases normal
  | .name n :: rest, c :: cs =>
    obtain ⟨isName, later⟩ := List.forall_mem_cons.mp readable
    obtain ⟨d, m, name⟩ := List.exists_cons_of_ne_nil (IsName.toList_ne_nil isName)
    have noBracket : ∀ c ∈ d :: m, c ≠ '[' :=
      fun c mem => (IsName.ne_of_mem isName (name ▸ mem)).2.1
    rw [normalChars, chars, name, List.cons_append] at normal
    obtain ⟨rfl, behind⟩ := List.cons.inj normal
    rw [show (c == '[') = false by simpa using noBracket c List.mem_cons_self] at behind
    obtain ⟨t, rfl, last⟩ :=
      tidy_false_eq_append (fun c mem => noBracket c (List.mem_cons_of_mem _ mem)) behind
    right
    rw [← List.cons_append, ← name]
    exact .name isName (spells_of_tidy later last)
  | .index i :: rest, c :: cs =>
    obtain ⟨fits, later⟩ := List.forall_mem_cons.mp readable
    obtain rfl : c = '[' := (List.cons.inj normal).1
    have behind : tidy true cs = Nat.toDigits 10 i ++ ']' :: rest.flatMap Step.text := by
      simpa [normalChars, chars, Step.text] using normal
    obtain ⟨digits, t, rfl, numeral, last⟩ := tidy_true_eq_numeral fits behind
    exact .inr (.pointed numeral (spells_of_tidy later last))

/-! ## Texts without anything to leave out -/

theorem tidy_length_le (opened : Bool) (cs : List Char) : (tidy opened cs).length ≤ cs.length := by
  induction cs generalizing opened with
  | nil => exact Nat.le_refl 0
  | cons c rest ih =>
    rw [tidy]
    split
    · exact Nat.le_succ_of_le (ih opened)
    · exact Nat.succ_le_succ (ih _)

theorem tidy_cons_eq_self_iff {opened : Bool} {c : Char} {rest : List Char} :
    tidy opened (c :: rest) = c :: rest ↔
      (∀ d ∈ rest.head?, isSuperfluous opened c d = false) ∧ tidy (c == '[') rest = rest := by
  constructor
  · intro same
    rw [tidy] at same
    split at same
    · have shorter := tidy_length_le opened rest
      rw [same] at shorter
      exact absurd shorter (Nat.not_succ_le_self _)
    · next kept =>
      refine ⟨fun d next => ?_, (List.cons.inj same).2⟩
      rw [Bool.not_eq_true, Option.any_eq_false] at kept
      simpa using kept d next
  · rintro ⟨kept, later⟩
    rw [tidy_kept kept, later]

theorem not_hasLoosePoint_nil : ¬ HasLoosePoint [] := by
  simp [HasLoosePoint]

theorem not_hasLeadingZero_nil : ¬ HasLeadingZero [] := by
  simp [HasLeadingZero]

theorem hasLoosePoint_cons_iff {c : Char} {cs : List Char} :
    HasLoosePoint (c :: cs) ↔ c = '.' ∧ ['['] <+: cs ∨ HasLoosePoint cs := by
  rw [HasLoosePoint, HasLoosePoint, List.infix_cons_iff, List.cons_prefix_cons, eq_comm]

theorem hasLeadingZero_cons_iff {c : Char} {cs : List Char} :
    HasLeadingZero (c :: cs) ↔
      c = '[' ∧ (∃ d, d.isDigit = true ∧ ['0', d] <+: cs) ∨ HasLeadingZero cs := by
  simp only [HasLeadingZero, List.infix_cons_iff, List.cons_prefix_cons]
  constructor
  · rintro ⟨d, digit, ⟨rfl, zero⟩ | later⟩
    · exact .inl ⟨rfl, d, digit, zero⟩
    · exact .inr ⟨d, digit, later⟩
  · rintro (⟨rfl, d, digit, zero⟩ | ⟨d, digit, later⟩)
    · exact ⟨d, digit, .inl ⟨rfl, zero⟩⟩
    · exact ⟨d, digit, .inr later⟩

/-- A character stays exactly where it starts neither kind of superfluous text. -/
theorem kept_iff {before c : Char} {rest : List Char} :
    (∀ d ∈ rest.head?, isSuperfluous (before == '[') c d = false) ↔
      ¬ (c = '.' ∧ ['['] <+: rest) ∧
        ¬ (before = '[' ∧ ∃ d, d.isDigit = true ∧ ['0', d] <+: c :: rest) := by
  cases rest with
  | nil => simp
  | cons d rest =>
    have next : (∀ e ∈ (d :: rest).head?, isSuperfluous (before == '[') c e = false) ↔
        ¬ isSuperfluous (before == '[') c d = true := by simp
    have bracket : ['['] <+: d :: rest ↔ d = '[' := by
      rw [List.cons_prefix_cons, and_iff_left List.nil_prefix, eq_comm]
    have zero : (∃ e, e.isDigit = true ∧ ['0', e] <+: c :: d :: rest) ↔
        c = '0' ∧ d.isDigit = true := by
      simp only [List.cons_prefix_cons, List.nil_prefix, and_true]
      exact ⟨fun ⟨e, digit, same, next⟩ => ⟨same.symm, next ▸ digit⟩,
        fun ⟨same, digit⟩ => ⟨d, digit, same.symm, rfl⟩⟩
    rw [next, isSuperfluous_eq_true_iff, not_or, beq_iff_eq, bracket, zero]

/-- Nothing is left out exactly where there is neither kind of superfluous text. The induction takes along
the character in front, which decides whether an index starts here. -/
theorem tidy_eq_self_iff {before : Char} {cs : List Char} :
    tidy (before == '[') cs = cs ↔ ¬ HasLoosePoint cs ∧ ¬ HasLeadingZero (before :: cs) := by
  induction cs generalizing before with
  | nil =>
    have noZero : ¬ HasLeadingZero [before] := by
      simp [hasLeadingZero_cons_iff, not_hasLeadingZero_nil]
    exact iff_of_true rfl ⟨not_hasLoosePoint_nil, noZero⟩
  | cons c rest ih =>
    rw [tidy_cons_eq_self_iff, kept_iff, ih, hasLoosePoint_cons_iff,
      hasLeadingZero_cons_iff (c := before), not_or, not_or]
    exact and_and_and_comm

end NormalFormLemmas

open NormalFormLemmas

/-- A text is read as a path exactly when the path is readable and its text is the normal form. -/
theorem parse_eq_ok_iff_normalText {input : String} {p : Path} :
    parse input = .ok p ↔ p.Readable ∧ p.text = normalText input := by
  have sameText : p.text = normalText input ↔ normalChars input.toList = p.chars := by
    rw [text, normalText, String.ofList_inj, eq_comm]
  rw [parse_eq_ok_iff, sameText]
  constructor
  · intro written
    exact ⟨readable_of_parse (parse_eq_ok_iff.mpr written), normalChars_of_written written⟩
  · rintro ⟨readable, normal⟩
    exact written_of_normalChars readable normal

example : normalText "servers.[007].host[0]" = "servers[7].host[0]" := by decide

/-- The texts that are their own normal form, among those that do not start with a point. -/
theorem normalText_eq_self_iff {input : String} (noPoint : ∀ c ∈ input.toList.head?, c ≠ '.') :
    normalText input = input ↔ ¬ HasLoosePoint input.toList ∧ ¬ HasLeadingZero input.toList := by
  have sameChars : normalText input = input ↔ normalChars input.toList = input.toList := by
    rw [normalText, ← String.toList_inj, String.toList_ofList]
  rw [sameChars]
  cases shape : input.toList with
  | nil => exact iff_of_true rfl ⟨not_hasLoosePoint_nil, not_hasLeadingZero_nil⟩
  | cons c rest =>
    rw [shape] at noPoint
    have here : c ≠ '.' := noPoint c rfl
    rw [normalChars, List.cons.injEq, eq_self, true_and, tidy_eq_self_iff, hasLoosePoint_cons_iff,
      not_or, and_iff_right (fun point : c = '.' ∧ _ => here point.1)]

/-! ## Printing and reading -/

/-- Every name on the path is one that a step can be made of. -/
def Named (p : Path) : Prop :=
  ∀ name, .name name ∈ p → Step.named name = .ok (.name name)

/-- Every position on the path is one that a list can have. -/
def Fits (p : Path) : Prop :=
  ∀ i, .index i ∈ p → i < indexLimit

theorem named_eq_ok_iff {name : String} : Step.named name = .ok (.name name) ↔ IsName name := by
  rw [Step.named, IsName]
  split <;> simp [*]

theorem readable_iff {p : Path} : p.Readable ↔ p.Named ∧ p.Fits := by
  constructor
  · intro readable
    exact ⟨fun name mem => named_eq_ok_iff.mpr (readable _ mem), fun i mem => readable _ mem⟩
  · rintro ⟨named, fits⟩ step mem
    cases step with
    | name name => exact named_eq_ok_iff.mp (named name mem)
    | index i => exact fits i mem

theorem head_ne_point_of_parse {input : String} {p : Path} (read : parse input = .ok p) :
    ∀ c ∈ input.toList.head?, c ≠ '.' := by
  intro c first
  obtain ⟨rest, shape⟩ := List.head?_eq_some_iff.mp first
  have written := parse_eq_ok_iff.mp read
  rw [shape] at written
  rcases written with ⟨-, empty⟩ | spells
  · cases empty
  · rintro rfl
    generalize second : '.' :: '.' :: rest = text at spells
    cases spells with
    | done => cases second
    | name isName later =>
      obtain ⟨d, m, name⟩ := List.exists_cons_of_ne_nil isName.toList_ne_nil
      rw [name, List.cons_append] at second
      have point := (List.cons.inj (List.cons.inj second).2).1
      exact (isName.ne_of_mem (name ▸ List.mem_cons_self)).1 point.symm
    | index numeral later => exact absurd (List.cons.inj second).1 (by decide)
    | pointed numeral later =>
      exact absurd (List.cons.inj (List.cons.inj second).2).1 (by decide)

theorem parse_eq_error {input : String} {e : Error} (failed : parse input = .error e) :
    ∃ problem, e = .invalidPath input problem := by
  obtain ⟨fault, -, rfl⟩ := mapError_eq_error_iff.mp failed
  exact ⟨fault.message, rfl⟩

/-- Printing and reading are inverse up to the normal form. A path is read back from its text exactly when
its names can be named; what a text is read as prints as the normal form of the text; and a text without
such a normal form is an error about that path text. -/
theorem print_parse_round_trip :
    (∀ p : Path, p.Fits → (parse p.text = .ok p ↔ p.Named)) ∧
      (∀ input p, parse input = .ok p →
        p.Named ∧ p.Fits ∧ parse p.text = .ok p ∧
          (p.text = input ↔ ¬ HasLoosePoint input.toList ∧ ¬ HasLeadingZero input.toList)) ∧
      (∀ input input' p q, parse input = .ok p → parse input' = .ok q → p.text = q.text → p = q) ∧
      (∀ input p, parse input = .ok p ↔ p.Named ∧ p.Fits ∧ p.text = normalText input) ∧
      ∀ input, (∀ p : Path, p.Named → p.Fits → p.text ≠ normalText input) →
        ∃ problem, parse input = .error (.invalidPath input problem) := by
  have accepted : ∀ input p,
      parse input = .ok p ↔ p.Named ∧ p.Fits ∧ p.text = normalText input := fun input p => by
    rw [parse_eq_ok_iff_normalText, readable_iff, and_assoc]
  refine ⟨?backFromText, ?normalForm, ?injective, accepted, ?rejected⟩
  case backFromText =>
    intro p fits
    constructor
    · exact fun read => (readable_iff.mp (readable_of_parse read)).1
    · exact fun named => parse_text (readable_iff.mpr ⟨named, fits⟩)
  case normalForm =>
    intro input p read
    obtain ⟨named, fits, normal⟩ := (accepted input p).mp read
    refine ⟨named, fits, parse_text (readable_iff.mpr ⟨named, fits⟩), ?_⟩
    rw [normal]
    exact normalText_eq_self_iff (head_ne_point_of_parse read)
  case injective =>
    intro input input' p q read read' same
    exact text_injective (readable_of_parse read) (readable_of_parse read') same
  case rejected =>
    intro input other
    cases read : parse input with
    | ok p =>
      obtain ⟨named, fits, normal⟩ := (accepted input p).mp read
      exact absurd normal (other p named fits)
    | error e =>
      obtain ⟨problem, rfl⟩ := parse_eq_error read
      exact ⟨problem, rfl⟩

/-- `servers.[007].host` prints without its point and its zeros and is the same path as `servers[7].host`, which
prints alike; a name with a point in it does not come back; and `a..b` is rejected. -/
theorem print_parse_round_trip_servers :
    parse "servers.[007].host" = .ok [.name "servers", .index 7, .name "host"] ∧
      parse (text [.name "servers", .index 7, .name "host"]) =
        .ok [.name "servers", .index 7, .name "host"] ∧
      text [.name "servers", .index 7, .name "host"] ≠ "servers.[007].host" ∧
      (∃ p q, parse "servers.[007].host" = .ok p ∧ parse "servers[7].host" = .ok q ∧ p.text = q.text ∧
        p = q) ∧
      parse (text [.name "a.b"]) ≠ .ok [.name "a.b"] ∧
      ∃ problem, parse "a..b" = .error (.invalidPath "a..b" problem) := by
  obtain ⟨backFromText, normalForm, injective, accepted, rejected⟩ := print_parse_round_trip
  have read : parse "servers.[007].host" = .ok [.name "servers", .index 7, .name "host"] := rfl
  obtain ⟨-, -, again, unchanged⟩ := normalForm _ _ read
  refine ⟨read, again, ?_, ?_, ?_, ?_⟩
  · intro same
    exact (unchanged.mp same).1 ⟨"servers".toList, "007].host".toList, by decide⟩
  · have read' : parse "servers[7].host" = .ok [.name "servers", .index 7, .name "host"] := rfl
    exact ⟨_, _, read, read', rfl, injective _ _ _ _ read read' rfl⟩
  · have fits : Fits [.name "a.b"] := fun i mem => by simp at mem
    intro read
    have named := (backFromText _ fits).mp read "a.b" List.mem_cons_self
    exact absurd (named_eq_ok_iff.mp named) (by decide)
  · refine rejected "a..b" fun p named fits normal => ?_
    have read := (accepted "a..b" p).mpr ⟨named, fits, normal⟩
    have failed : parse "a..b" = .error (.invalidPath "a..b" "Blank path segment") := rfl
    rw [failed] at read
    cases read

end LayeredConfig.Path
