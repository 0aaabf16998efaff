import LayeredConfig.Proofs.Computation
import LayeredConfig.Proofs.Number.Exact

/-!
# Amounts

An amount is written in digits, with a point and more digits behind it or without. It is read as exactly the
number it denotes, if a decimal can hold that number (`exists_readPlain`). The text may have more digits than a
decimal has room for; then there are zeros from the first one on that is left out (`zeros_behind`), and
rounding on it changes nothing.
-/

namespace LayeredConfig.Number

/-! ## Digits -/

section Digits

variable {digits : List Char} {n : Nat}

theorem mul_le_ofDigitChars (digits : List Char) (n : Nat) :
    n * 10 ^ digits.length ≤ Nat.ofDigitChars 10 digits n := by
  rw [Nat.ofDigitChars_eq_ofDigitChars_zero, Nat.mul_comm]
  exact Nat.le_add_right _ _

theorem le_ofDigitChars (digits : List Char) (n : Nat) : n ≤ Nat.ofDigitChars 10 digits n := by
  exact (Nat.le_mul_of_pos_right n (by positivity)).trans (mul_le_ofDigitChars digits n)

theorem digit_lt {c : Char} (digit : c.isDigit = true) : c.toNat - '0'.toNat < 10 := by
  obtain ⟨low, high⟩ := Char.isDigit_iff_toNat.mp digit
  have zero : '0'.toNat = 48 := rfl
  have nine : '9'.toNat = 57 := rfl
  omega

theorem exists_cons_digit (allDigits : ∀ c ∈ digits, c.isDigit = true) (nonempty : digits ≠ []) :
    ∃ c rest, digits = c :: rest ∧ c.isDigit = true := by
  obtain ⟨c, rest, rfl⟩ := List.exists_cons_of_ne_nil nonempty
  exact ⟨c, rest, rfl, allDigits c List.mem_cons_self⟩

theorem ofDigitChars_lt (allDigits : ∀ c ∈ digits, c.isDigit = true) :
    Nat.ofDigitChars 10 digits 0 < 10 ^ digits.length := by
  induction digits with
  | nil => exact Nat.one_pos
  | cons c digits ih =>
    obtain ⟨here, later⟩ := List.forall_mem_cons.mp allDigits
    have small := digit_lt here
    rw [Nat.ofDigitChars_cons, Nat.ofDigitChars_eq_ofDigitChars_zero, Nat.mul_zero, Nat.zero_add,
      List.length_cons, Nat.pow_succ]
    calc
      10 ^ digits.length * (c.toNat - '0'.toNat) + Nat.ofDigitChars 10 digits 0
          < 10 ^ digits.length * (c.toNat - '0'.toNat) + 10 ^ digits.length :=
        Nat.add_lt_add_left (ih later) _
      _ = 10 ^ digits.length * (c.toNat - '0'.toNat + 1) := (Nat.mul_succ _ _).symm
      _ ≤ 10 ^ digits.length * 10 := Nat.mul_le_mul_left _ small

theorem ofDigitChars_zeros (zeros : ∀ c ∈ digits, c = '0') :
    Nat.ofDigitChars 10 digits n = 10 ^ digits.length * n := by
  induction digits generalizing n with
  | nil => rw [Nat.ofDigitChars_nil, List.length_nil, Nat.pow_zero, Nat.one_mul]
  | cons c digits ih =>
    obtain ⟨rfl, later⟩ := List.forall_mem_cons.mp zeros
    rw [Nat.ofDigitChars_cons, ih later, Nat.sub_self, Nat.add_zero, List.length_cons, Nat.pow_succ,
      Nat.mul_assoc]

theorem zeros_of_ofDigitChars (allDigits : ∀ c ∈ digits, c.isDigit = true)
    (vanishes : Nat.ofDigitChars 10 digits 0 = 0) : ∀ c ∈ digits, c = '0' := by
  induction digits with
  | nil => exact fun _ mem => nomatch mem
  | cons c digits ih =>
    obtain ⟨here, later⟩ := List.forall_mem_cons.mp allDigits
    rw [Nat.ofDigitChars_cons, Nat.ofDigitChars_eq_ofDigitChars_zero, Nat.add_eq_zero_iff] at vanishes
    obtain ⟨first, rest⟩ := vanishes
    have positive : 0 < 10 ^ digits.length := by positivity
    have zero : c.toNat - '0'.toNat = 0 := by
      simpa [positive.ne'] using first
    refine List.forall_mem_cons.mpr ⟨Char.toNat_inj.mp ?_, ih later rest⟩
    have low := (Char.isDigit_iff_toNat.mp here).1
    omega

end Digits

namespace Decimal

/-! ## Reading digits -/

section Scan

variable {c : Char} {r : Reader} {digits rest : List Char} {n s : Nat} {seen : Bool}

theorem scan_digit (digit : c.isDigit = true) (room : r.full = false)
    (short : 10 * r.mantissa + (c.toNat - '0'.toNat) < mantissaLimit) :
    scan r (c :: rest) = scan ⟨10 * r.mantissa + (c.toNat - '0'.toNat),
      if r.point then r.scale + 1 else 0, r.point, true, false⟩ rest := by
  rw [scan, if_neg (by simp [room]), if_pos digit]
  exact if_pos short

/-- Digits in front of the point. -/
theorem scan_whole (allDigits : ∀ c ∈ digits, c.isDigit = true) (rest : List Char)
    (short : Nat.ofDigitChars 10 digits n < mantissaLimit) :
    scan ⟨n, 0, false, seen, false⟩ (digits ++ rest) =
      scan ⟨Nat.ofDigitChars 10 digits n, 0, false, seen || !digits.isEmpty, false⟩ rest := by
  induction digits generalizing n seen with
  | nil => rw [List.nil_append, Nat.ofDigitChars_nil, List.isEmpty_nil, Bool.not_true, Bool.or_false]
  | cons c digits ih =>
    obtain ⟨here, later⟩ := List.forall_mem_cons.mp allDigits
    rw [Nat.ofDigitChars_cons] at short ⊢
    have next := Nat.lt_of_le_of_lt (le_ofDigitChars digits _) short
    rw [List.cons_append, scan_digit here rfl next]
    simp only [Bool.false_eq_true, if_false]
    rw [ih later short, Bool.true_or, List.isEmpty_cons, Bool.not_false, Bool.or_true]

theorem places_cons (s : Nat) (c : Char) (digits : List Char) :
    s + (c :: digits).length = s + 1 + digits.length := by
  rw [List.length_cons, ← Nat.add_assoc, Nat.add_right_comm]

/-- Where a decimal has no room for the next digit, only zeros follow if it can hold the number. -/
theorem zeros_behind (allDigits : ∀ d ∈ c :: digits, d.isDigit = true)
    (fits : Fits (Nat.ofDigitChars 10 (c :: digits) n / 10 ^ (s + (c :: digits).length)))
    (noRoom : maxScale ≤ s ∨ mantissaLimit ≤ 10 * n + (c.toNat - '0'.toNat)) :
    ∀ d ∈ c :: digits, d = '0' := by
  obtain ⟨m, t, short, few, same⟩ := fits_iff.mp fits
  refine zeros_of_ofDigitChars allDigits ?_
  have below := ofDigitChars_lt allDigits
  rcases Nat.lt_or_ge s t with more | fewer
  · -- the digit at hand belongs to the mantissa of the number, which would be too long with it
    obtain ⟨j, rfl⟩ := Nat.exists_eq_add_of_lt more
    have full : mantissaLimit ≤ 10 * n + (c.toNat - '0'.toNat) := noRoom.resolve_left (by omega)
    have cancelled : m * 10 ^ digits.length =
        Nat.ofDigitChars 10 (c :: digits) n * 10 ^ j := by
      rw [places_cons, Nat.add_right_comm s j 1, Nat.add_comm (s + 1) j, Nat.add_comm (s + 1) digits.length,
        Nat.pow_add 10 j, Nat.pow_add 10 digits.length, ← Nat.mul_assoc, ← Nat.mul_assoc] at same
      exact (Nat.eq_of_mul_eq_mul_right (by positivity) same).symm
    have long : (10 * n + (c.toNat - '0'.toNat)) * 10 ^ digits.length ≤ m * 10 ^ digits.length := by
      rw [cancelled, Nat.ofDigitChars_cons, Nat.ofDigitChars_eq_ofDigitChars_zero, Nat.mul_comm]
      exact (Nat.le_add_right _ _).trans (Nat.le_mul_of_pos_right _ (by positivity))
    have bound := Nat.le_of_mul_le_mul_right long (by positivity)
    omega
  · -- the number has no places behind those that were read
    obtain ⟨j, rfl⟩ := Nat.exists_eq_add_of_le fewer
    rw [Nat.ofDigitChars_eq_ofDigitChars_zero, Nat.add_assoc, Nat.pow_add, Nat.mul_comm (10 ^ t),
      ← Nat.mul_assoc] at same
    have whole := Nat.eq_of_mul_eq_mul_right (by positivity) same
    rw [Nat.pow_add, ← Nat.mul_assoc] at whole
    have rest := congrArg (· % 10 ^ (c :: digits).length) whole
    simp only [Nat.mul_add_mod, Nat.mul_mod_left] at rest
    rwa [Nat.mod_eq_of_lt below] at rest

/-- Rounding on a zero with zeros behind it changes nothing. -/
theorem roundOn_zeros (zeros : ∀ d ∈ c :: digits, d = '0') (short : r.mantissa < mantissaLimit) :
    r.roundOn c digits = .ok (r.mantissa, r.scale) := by
  obtain ⟨rfl, later⟩ := List.forall_mem_cons.mp zeros
  have noStray : ('0' :: digits).find? (!isRoundedAway ·) = none := by
    rw [List.find?_eq_none]
    intro d mem
    rw [zeros d mem]
    decide
  unfold Reader.roundOn
  rw [noStray]
  exact if_pos short

/-- Where a decimal has no room for the next digit, it is rounded on. -/
theorem scan_noRoom (digit : c.isDigit = true)
    (noRoom : maxScale ≤ s ∨ mantissaLimit ≤ 10 * n + (c.toNat - '0'.toNat)) :
    scan ⟨n, s, true, true, false⟩ (c :: rest) = Reader.roundOn ⟨n, s, true, true, false⟩ c rest := by
  have noSeparator : c ≠ '_' := by
    rintro rfl
    exact absurd digit (by decide)
  rw [scan]
  split
  · exact if_neg (by simp [noSeparator])
  · next room =>
    have long : ¬10 * n + (c.toNat - '0'.toNat) < mantissaLimit := by
      refine Nat.not_lt.mpr (noRoom.resolve_left fun full => room ?_)
      simpa [Reader.full] using full
    exact if_neg long

/-- Where a decimal has room for the next digit, it is the next place. -/
theorem scan_room (digit : c.isDigit = true)
    (room : ¬(maxScale ≤ s ∨ mantissaLimit ≤ 10 * n + (c.toNat - '0'.toNat))) :
    scan ⟨n, s, true, true, false⟩ (c :: rest) =
      scan ⟨10 * n + (c.toNat - '0'.toNat), s + 1, true, true, false⟩ rest := by
  obtain ⟨places, short⟩ := not_or.mp room
  have notFull : Reader.full ⟨n, s, true, true, false⟩ = false := by
    simpa [Reader.full] using places
  rw [scan_digit digit notFull (Nat.lt_of_not_le short)]
  rfl

/-- Digits behind the point, of which only zeros are left out. -/
theorem exists_scan_places (allDigits : ∀ c ∈ digits, c.isDigit = true) (short : n < mantissaLimit)
    (few : s ≤ maxScale) (fits : Fits (Nat.ofDigitChars 10 digits n / 10 ^ (s + digits.length))) :
    ∃ m t, scan ⟨n, s, true, true, false⟩ digits = .ok (m, t) ∧ m < mantissaLimit ∧ t ≤ maxScale ∧
      (m / 10 ^ t : ℚ) = Nat.ofDigitChars 10 digits n / 10 ^ (s + digits.length) := by
  induction digits generalizing n s with
  | nil => exact ⟨n, s, by rw [scan]; rfl, short, few, rfl⟩
  | cons c digits ih =>
    obtain ⟨here, later⟩ := List.forall_mem_cons.mp allDigits
    by_cases noRoom : maxScale ≤ s ∨ mantissaLimit ≤ 10 * n + (c.toNat - '0'.toNat)
    · have zeros := zeros_behind allDigits fits noRoom
      refine ⟨n, s, (scan_noRoom here noRoom).trans (roundOn_zeros zeros short), short, few, ?_⟩
      rw [div_pow_eq_iff, ofDigitChars_zeros zeros, Nat.pow_add, Nat.mul_comm (10 ^ s), ← Nat.mul_assoc,
        Nat.mul_comm n]
    · obtain ⟨places, short'⟩ := not_or.mp noRoom
      rw [Nat.ofDigitChars_cons, places_cons] at fits ⊢
      rw [scan_room here noRoom]
      exact ih later (Nat.lt_of_not_le short') (Nat.lt_of_not_le places) fits

/-- A text that begins with a digit has no sign. -/
theorem readPlain_of_digit (digit : c.isDigit = true) (rest : List Char) :
    readPlain (c :: rest) = (do
      let (mantissa, scale) ← scan ⟨0, 0, false, false, false⟩ (c :: rest)
      match ofParts? false mantissa (scale % (maxScale + 1)) with
      | some d => .ok d
      | none => .error .tooManyDigits) := by
  unfold readPlain
  split
  next sign =>
    split at sign
    · next minus =>
      obtain ⟨rfl, -⟩ := List.cons.inj minus
      exact absurd digit (by decide)
    · next plus =>
      obtain ⟨rfl, -⟩ := List.cons.inj plus
      exact absurd digit (by decide)
    · cases sign
      rfl

theorem ofParts?_of_within {negative : Bool} {mantissa scale : Nat} (short : mantissa < mantissaLimit)
    (few : scale ≤ maxScale) :
    ofParts? negative mantissa (scale % (maxScale + 1)) = some ⟨negative, mantissa, scale, short, few⟩ := by
  rw [Nat.mod_eq_of_lt (Nat.lt_succ_of_le few), ofParts?, dif_pos ⟨short, few⟩]

end Scan

end Decimal

/-! ## Amounts -/

/-- A number as it is written: digits, and perhaps a point with digits behind it. -/
structure Amount where
  whole : List Char
  places : List Char
  whole_ne_nil : whole ≠ []
  whole_digits : ∀ c ∈ whole, c.isDigit = true
  places_digits : ∀ c ∈ places, c.isDigit = true

namespace Amount

/-- The text of an amount. Without places there is no point. -/
def chars (a : Amount) : List Char :=
  a.whole ++ if a.places.isEmpty then [] else '.' :: a.places

/-- The number that an amount denotes. -/
def value (a : Amount) : ℚ :=
  Nat.ofDigitChars 10 (a.whole ++ a.places) 0 / 10 ^ a.places.length

variable {a : Amount}

theorem chars_of_nil (noPlaces : a.places = []) : a.chars = a.whole := by
  rw [chars, noPlaces, List.isEmpty_nil, if_pos rfl, List.append_nil]

theorem chars_of_cons {d : Char} {more : List Char} (places : a.places = d :: more) :
    a.chars = a.whole ++ '.' :: d :: more := by
  rw [chars, places, List.isEmpty_cons, if_neg Bool.false_ne_true]

theorem chars_nonempty (a : Amount) : a.chars.isEmpty = false := by
  rw [List.isEmpty_eq_false_iff]
  exact List.append_ne_nil_of_left_ne_nil a.whole_ne_nil _

theorem value_nonneg (a : Amount) : 0 ≤ a.value := by
  unfold value
  positivity

/-- The digits before the point alone are within the limit. -/
theorem whole_lt (fits : Decimal.Fits a.value) : Nat.ofDigitChars 10 a.whole 0 < mantissaLimit := by
  obtain ⟨m, t, short, -, same⟩ := Decimal.fits_iff.mp fits
  refine Nat.lt_of_le_of_lt (Nat.le_of_mul_le_mul_right ?_ (?_ : 0 < 10 ^ a.places.length)) short
  · calc
      Nat.ofDigitChars 10 a.whole 0 * 10 ^ a.places.length
          ≤ Nat.ofDigitChars 10 (a.whole ++ a.places) 0 := by
        rw [Nat.ofDigitChars_append]
        exact mul_le_ofDigitChars _ _
      _ ≤ Nat.ofDigitChars 10 (a.whole ++ a.places) 0 * 10 ^ t :=
        Nat.le_mul_of_pos_right _ (by positivity)
      _ = m * 10 ^ a.places.length := same
  · positivity

/-- Behind the digits before the point, the places are scanned. -/
theorem scan_chars (short : Nat.ofDigitChars 10 a.whole 0 < mantissaLimit) :
    Decimal.scan ⟨0, 0, false, false, false⟩ a.chars =
      Decimal.scan ⟨Nat.ofDigitChars 10 a.whole 0, 0, true, true, false⟩ a.places := by
  have seen : !a.whole.isEmpty := by simpa using a.whole_ne_nil
  unfold chars
  rw [Decimal.scan_whole a.whole_digits _ short, Bool.false_or, seen]
  match a.places with
  | [] => rfl
  | d :: more => rfl

theorem value_eq (a : Amount) :
    a.value = Nat.ofDigitChars 10 a.places (Nat.ofDigitChars 10 a.whole 0) / 10 ^ (0 + a.places.length) := by
  rw [value, Nat.ofDigitChars_append, Nat.zero_add]

/-- An amount that a decimal can hold is scanned as just the number it denotes. -/
theorem exists_scan (fits : Decimal.Fits a.value) :
    ∃ m t, Decimal.scan ⟨0, 0, false, false, false⟩ a.chars = .ok (m, t) ∧ m < mantissaLimit ∧
      t ≤ maxScale ∧ (m / 10 ^ t : ℚ) = a.value := by
  have short := whole_lt fits
  rw [scan_chars short]
  rw [value_eq] at fits ⊢
  exact Decimal.exists_scan_places a.places_digits short (Nat.zero_le _) fits

theorem readPlain_chars (a : Amount) :
    Decimal.readPlain a.chars = (do
      let (mantissa, scale) ← Decimal.scan ⟨0, 0, false, false, false⟩ a.chars
      match Decimal.ofParts? false mantissa (scale % (maxScale + 1)) with
      | some d => .ok d
      | none => .error .tooManyDigits) := by
  obtain ⟨c, whole, shape, digit⟩ := exists_cons_digit a.whole_digits a.whole_ne_nil
  rw [chars, shape, List.cons_append]
  exact Decimal.readPlain_of_digit digit _

/-- An amount that a decimal can hold is read as just the number it denotes. -/
theorem exists_readPlain (fits : Decimal.Fits a.value) :
    ∃ d, Decimal.readPlain a.chars = .ok d ∧ d.magnitude = a.value := by
  obtain ⟨m, t, scanned, short, few, same⟩ := exists_scan fits
  refine ⟨⟨false, m, t, short, few⟩, ?_, same⟩
  rw [readPlain_chars]
  refine bind_eq_ok.mpr ⟨(m, t), scanned, ?_⟩
  simp only [Decimal.ofParts?_of_within short few]

end Amount

end LayeredConfig.Number
