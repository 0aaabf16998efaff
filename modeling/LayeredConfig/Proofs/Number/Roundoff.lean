import LayeredConfig.Proofs.Number.Amount

/-!
# Decimals with rounding

Where a result does not fit, the arithmetic rounds it, and the relative error of one operation is less than
2 ^ -91 (`Near`). An amount that is read may lose its places beyond the last one as well (`NearAmount`).
-/

namespace LayeredConfig.Number

/-- A bound of the relative error of one operation. -/
def roundoff : ℚ := 1 / 2 ^ 91

/-- The computed number is the exact one up to the rounding of one operation. -/
structure Near (exact computed : ℚ) : Prop where
  low : exact * (1 - roundoff) ≤ computed
  high : computed ≤ exact * (1 + roundoff)

theorem roundoff_pos : 0 < roundoff := by
  unfold roundoff
  positivity

theorem roundoff_le_one : roundoff ≤ 1 := by
  unfold roundoff
  norm_num

theorem Near.refl {q : ℚ} (nonneg : 0 ≤ q) : Near q q :=
  ⟨mul_le_of_le_one_right nonneg (by linarith [roundoff_pos]),
    le_mul_of_one_le_right nonneg (by linarith [roundoff_pos])⟩

namespace Decimal

/-! ## The arithmetic -/

section Arithmetic

variable {negative : Bool} {mantissa scale : Nat} {d : Decimal}

/-- A mantissa without its last places is near to the one with them. -/
theorem near_of_mantissa {m places : Nat}
    (low : mantissa * 2 ^ 91 ≤ m * 10 ^ places * 2 ^ 91 + mantissa)
    (high : m * 10 ^ places * 2 ^ 91 ≤ mantissa * 2 ^ 91 + mantissa) :
    Near (mantissa / 10 ^ (scale + places)) (m / 10 ^ scale) := by
  have same : (m / 10 ^ scale : ℚ) = (m * 10 ^ places) / 10 ^ (scale + places) := by
    rw [pow_add, mul_div_mul_right _ _ (pow_pos_ten places).ne']
  have low' : (mantissa * 2 ^ 91 : ℚ) ≤ m * 10 ^ places * 2 ^ 91 + mantissa := by exact_mod_cast low
  have high' : (m * 10 ^ places * 2 ^ 91 : ℚ) ≤ mantissa * 2 ^ 91 + mantissa := by exact_mod_cast high
  rw [same]
  constructor
  · rw [div_mul_eq_mul_div]
    refine div_le_div_of_nonneg_right ?_ (pow_pos_ten _).le
    unfold roundoff
    linarith
  · rw [div_mul_eq_mul_div]
    refine div_le_div_of_nonneg_right ?_ (pow_pos_ten _).le
    unfold roundoff
    linarith

/-- One place less than what has to go is not enough. -/
theorem limit_le_of_excessPlaces? {places : Nat}
    (found : excessPlaces? mantissa scale = some (places + 1)) :
    places + 1 ≤ scale ∧ mantissaLimit * 10 ^ places ≤ mantissa := by
  obtain ⟨-, mem, before⟩ := List.find?_range_eq_some.mp found
  refine ⟨Nat.le_of_lt_succ (List.mem_range.mp mem), ?_⟩
  have notYet := before places (Nat.lt_succ_self places)
  rw [Bool.not_eq_true', decide_eq_false_iff_not, Nat.not_lt] at notYet
  exact (Nat.le_div_iff_mul_le (by positivity)).mp notYet

/-- Rounding on places that have to go. -/
theorem near_rounded {places left rounded : Nat} (big : mantissaLimit * 10 ^ places ≤ mantissa)
    (same : roundDiv .toEven mantissa (10 ^ (places + 1)) = rounded) :
    Near (mantissa / 10 ^ (left + (places + 1))) (rounded / 10 ^ left) := by
  obtain ⟨above, below⟩ := roundDiv_within_half .toEven mantissa (by positivity : 0 < 10 ^ (places + 1))
  rw [same] at above below
  rw [show mantissaLimit = 2 ^ 96 from rfl] at big
  exact near_of_mantissa (by omega) (by omega)

/-- Rounding once more where the first time made the mantissa too long again. -/
theorem near_rounded_again {places left rounded again : Nat}
    (same : roundDiv .toEven mantissa (10 ^ (places + 1)) = rounded) (long : mantissaLimit ≤ rounded)
    (same' : roundDiv .toEven rounded 10 = again) :
    Near (mantissa / 10 ^ (left + (places + 1 + 1))) (again / 10 ^ left) := by
  obtain ⟨above, below⟩ := roundDiv_within_half .toEven mantissa (by positivity : 0 < 10 ^ (places + 1))
  obtain ⟨above', below'⟩ := roundDiv_within_half .toEven rounded (by decide : 0 < 10)
  rw [same] at above below
  rw [same'] at above' below'
  have power : 10 ^ (places + 1 + 1) = 10 * 10 ^ (places + 1) := Nat.pow_succ'
  have more : again * 10 ^ (places + 1 + 1) ≤ rounded * 10 ^ (places + 1) + 5 * 10 ^ (places + 1) :=
    calc
      again * 10 ^ (places + 1 + 1) = again * 10 * 10 ^ (places + 1) := by rw [power, Nat.mul_assoc]
      _ ≤ (rounded + 5) * 10 ^ (places + 1) := Nat.mul_le_mul_right _ (by omega)
      _ = rounded * 10 ^ (places + 1) + 5 * 10 ^ (places + 1) := Nat.add_mul _ _ _
  have less : rounded * 10 ^ (places + 1) ≤ again * 10 ^ (places + 1 + 1) + 5 * 10 ^ (places + 1) :=
    calc
      rounded * 10 ^ (places + 1) ≤ (again * 10 + 5) * 10 ^ (places + 1) :=
        Nat.mul_le_mul_right _ (by omega)
      _ = again * 10 ^ (places + 1 + 1) + 5 * 10 ^ (places + 1) := by
        rw [power, Nat.add_mul, Nat.mul_assoc again]
  have big := Nat.mul_le_mul_right (10 ^ (places + 1)) long
  rw [show mantissaLimit = 2 ^ 96 from rfl] at big
  exact near_of_mantissa (by omega) (by omega)

theorem magnitude_of_ofParts? (made : ofParts? negative mantissa scale = some d) :
    d.magnitude = mantissa / 10 ^ scale := by
  obtain ⟨-, rfl, rfl⟩ := parts_of_ofParts? made
  rfl

/-- Every result is near to the exact one. -/
theorem near_fit (fitted : fit negative mantissa scale = some d) :
    Near (mantissa / 10 ^ scale) d.magnitude := by
  obtain ⟨places, found, rest⟩ := Option.bind_eq_some_iff.mp fitted
  simp only [show Nat.pow 10 places = 10 ^ places from rfl] at rest
  cases places with
  | zero =>
    have short : mantissa < mantissaLimit := by
      have fits := of_decide_eq_true (List.find?_range_eq_some.mp found).1
      rwa [show Nat.pow 10 0 = 1 from rfl, Nat.div_one] at fits
    have same : roundDiv .toEven mantissa (10 ^ 0) = mantissa := by
      simpa using roundDiv_mul .toEven mantissa Nat.one_pos
    rw [same, if_pos short] at rest
    rw [magnitude_of_ofParts? rest]
    exact Near.refl (by positivity)
  | succ places =>
    obtain ⟨within, big⟩ := limit_le_of_excessPlaces? found
    split at rest
    · obtain ⟨left, rfl⟩ := Nat.exists_eq_add_of_le' within
      rw [magnitude_of_ofParts? rest, Nat.add_sub_cancel]
      exact near_rounded big rfl
    · next long =>
      split at rest
      · next more =>
        obtain ⟨left, rfl⟩ := Nat.exists_eq_add_of_le' (more : places + 1 + 1 ≤ scale)
        have left_eq : left + (places + 1 + 1) - (places + 1) - 1 = left := by omega
        rw [magnitude_of_ofParts? rest, left_eq]
        exact near_rounded_again rfl (Nat.le_of_not_lt long) rfl
      · cases rest

/-- A result is near to the exact one. -/
theorem Computes.near {result : Option Decimal} {q : ℚ} (computes : Computes result q)
    (made : result = some d) : Near q d.magnitude := by
  cases computes with
  | exactly d' =>
    obtain rfl := Option.some.inj made
    exact Near.refl d'.magnitude_nonneg
  | fitted => exact near_fit made

end Arithmetic

/-! ## Amounts -/

section Amounts

variable {c : Char} {digits rest : List Char} {n s m t : Nat}

/-- Digits in front of the point are not rounded. -/
theorem short_of_scan {seen : Bool} {result : Nat × Nat} (allDigits : ∀ c ∈ digits, c.isDigit = true)
    (short : n < mantissaLimit) (scanned : scan ⟨n, 0, false, seen, false⟩ (digits ++ rest) = .ok result) :
    Nat.ofDigitChars 10 digits n < mantissaLimit := by
  induction digits generalizing n seen with
  | nil => exact short
  | cons c digits ih =>
    obtain ⟨here, later⟩ := List.forall_mem_cons.mp allDigits
    rw [Nat.ofDigitChars_cons]
    by_cases next : 10 * n + (c.toNat - '0'.toNat) < mantissaLimit
    · rw [List.cons_append, scan_digit here rfl next] at scanned
      exact ih later next scanned
    · rw [List.cons_append, scan, if_neg (by exact Bool.false_ne_true), if_pos here] at scanned
      simp only [if_neg next] at scanned
      cases scanned

/-- Rounding on a digit changes a mantissa by one at most, or by five where it is at its limit. -/
theorem exists_roundOn {point seen ahead : Bool} (short : n < mantissaLimit)
    (rounded : Reader.roundOn ⟨n, s, point, seen, ahead⟩ c rest = .ok (m, t)) :
    t ≤ s ∧ ∃ shown : Nat, (m / 10 ^ t : ℚ) = shown / 10 ^ s ∧
      (n ≤ shown ∧ shown ≤ n + 1 ∨ mantissaLimit ≤ n + 1 ∧ n ≤ shown + 5 ∧ shown ≤ n + 5) := by
  unfold Reader.roundOn at rounded
  split at rounded
  · cases rounded
  · have up : (if c.isDigit && '5' ≤ c then 1 else 0) ≤ 1 := by split <;> decide
    generalize (if c.isDigit && '5' ≤ c then 1 else 0) = carry at rounded up
    simp only at rounded
    split at rounded
    · cases rounded
      exact ⟨le_rfl, n + carry, rfl, .inl ⟨Nat.le_add_right _ _, Nat.add_le_add_left up _⟩⟩
    · next long =>
      split at rounded
      · cases rounded
      · next places =>
        cases rounded
        obtain ⟨t, rfl⟩ := Nat.exists_eq_succ_of_ne_zero places
        refine ⟨Nat.sub_le _ _, (n + carry + 4) / 10 * 10, ?_, .inr (by omega)⟩
        rw [Nat.succ_sub_one, div_pow_eq_iff, Nat.mul_assoc, ← Nat.pow_succ']

/-- The computed number is the amount, up to rounding and the places beyond the last one. -/
structure NearAmount (exact computed : ℚ) : Prop where
  low : exact * (1 - roundoff) - 1 / 10 ^ maxScale ≤ computed
  high : computed ≤ exact * (1 + roundoff) + 1 / 10 ^ maxScale

theorem nearAmount_div {w shown : ℚ} (near : |shown - w| ≤ w * roundoff + 10 ^ s / 10 ^ maxScale) :
    NearAmount (w / 10 ^ s) (shown / 10 ^ s) := by
  obtain ⟨low, high⟩ := abs_le.mp near
  have unit : (1 / 10 ^ maxScale : ℚ) = 10 ^ s / 10 ^ maxScale / 10 ^ s := by
    rw [div_right_comm, div_self (pow_pos_ten s).ne']
  constructor
  · rw [unit, div_mul_eq_mul_div, ← sub_div]
    exact div_le_div_of_nonneg_right (by linarith) (pow_pos_ten s).le
  · rw [unit, div_mul_eq_mul_div, ← add_div]
    exact div_le_div_of_nonneg_right (by linarith) (pow_pos_ten s).le

/-- Rounding where a decimal has no room for the next digit: either it is behind the last place, or the
mantissa is so long that the change is within its rounding. -/
theorem close_of_noRoom {w : ℚ} {shown : Nat} (low : n ≤ w) (high : w < n + 1)
    (noRoom : maxScale ≤ s ∨ mantissaLimit ≤ 10 * n + 9)
    (close : n ≤ shown ∧ shown ≤ n + 1 ∨ mantissaLimit ≤ n + 1 ∧ n ≤ shown + 5 ∧ shown ≤ n + 5) :
    |shown - w| ≤ w * roundoff + 10 ^ s / 10 ^ maxScale := by
  have scaled : n * roundoff ≤ w * roundoff := mul_le_mul_of_nonneg_right low roundoff_pos.le
  have small : (0 : ℚ) < 10 ^ s / 10 ^ maxScale := by positivity
  rw [show mantissaLimit = 2 ^ 96 from rfl] at noRoom close
  unfold roundoff at scaled ⊢
  rcases close with ⟨above, below⟩ | ⟨long, above, below⟩
  · have above' : (n : ℚ) ≤ shown := by exact_mod_cast above
    have below' : (shown : ℚ) ≤ n + 1 := by exact_mod_cast below
    have one : (1 : ℚ) ≤ w * (1 / 2 ^ 91) + 10 ^ s / 10 ^ maxScale := by
      rcases noRoom with full | long
      · have last : (1 : ℚ) ≤ 10 ^ s / 10 ^ maxScale := by
          rw [one_le_div (by positivity)]
          exact pow_le_pow_right₀ (by norm_num) full
        have nonneg : (0 : ℚ) ≤ n * (1 / 2 ^ 91) := by positivity
        linarith
      · have long' : (2 ^ 96 : ℚ) ≤ 10 * n + 9 := by exact_mod_cast long
        linarith
    rw [abs_le]
    constructor <;> linarith
  · have above' : (n : ℚ) ≤ shown + 5 := by exact_mod_cast above
    have below' : (shown : ℚ) ≤ n + 5 := by exact_mod_cast below
    have long' : (2 ^ 96 : ℚ) ≤ n + 1 := by exact_mod_cast long
    rw [abs_le]
    constructor <;> linarith

/-- Digits behind the point. -/
theorem near_scan_places (allDigits : ∀ c ∈ digits, c.isDigit = true) (short : n < mantissaLimit)
    (few : s ≤ maxScale) (scanned : scan ⟨n, s, true, true, false⟩ digits = .ok (m, t)) :
    t ≤ maxScale ∧ NearAmount (Nat.ofDigitChars 10 digits n / 10 ^ (s + digits.length)) (m / 10 ^ t) := by
  induction digits generalizing n s with
  | nil =>
    cases scanned
    refine ⟨few, nearAmount_div ?_⟩
    have nonneg := roundoff_pos
    rw [Nat.ofDigitChars_nil, sub_self, abs_zero]
    positivity
  | cons c digits ih =>
    obtain ⟨here, later⟩ := List.forall_mem_cons.mp allDigits
    by_cases noRoom : maxScale ≤ s ∨ mantissaLimit ≤ 10 * n + (c.toNat - '0'.toNat)
    · -- the digits from here on are cut off, which is less than one of the last digit that stays
      rw [scan_noRoom here noRoom] at scanned
      obtain ⟨fewer, shown, same, close⟩ := exists_roundOn short scanned
      have low := mul_le_ofDigitChars (c :: digits) n
      have high : Nat.ofDigitChars 10 (c :: digits) n < (n + 1) * 10 ^ (c :: digits).length := by
        rw [Nat.ofDigitChars_eq_ofDigitChars_zero, Nat.add_mul, Nat.mul_comm, Nat.one_mul]
        exact Nat.add_lt_add_left (ofDigitChars_lt allDigits) _
      have noRoom' : maxScale ≤ s ∨ mantissaLimit ≤ 10 * n + 9 :=
        noRoom.imp_right fun long => long.trans (by have := digit_lt here; omega)
      rw [same, Nat.add_comm s, pow_add, ← div_div]
      refine ⟨fewer.trans few, nearAmount_div (close_of_noRoom ?_ ?_ noRoom' close)⟩
      · rw [le_div_iff₀ (pow_pos_ten _)]
        exact_mod_cast low
      · rw [div_lt_iff₀ (pow_pos_ten _)]
        exact_mod_cast high
    · obtain ⟨places, short'⟩ := not_or.mp noRoom
      rw [scan_room here noRoom] at scanned
      rw [Nat.ofDigitChars_cons, places_cons]
      exact ih later (Nat.lt_of_not_le short') (Nat.lt_of_not_le places) scanned

end Amounts

end Decimal

/-- An amount that is read is near to the number it denotes. -/
theorem Amount.near_readPlain {a : Amount} {d : Decimal} (read : Decimal.readPlain a.chars = .ok d) :
    Decimal.NearAmount a.value d.magnitude := by
  rw [readPlain_chars] at read
  obtain ⟨⟨m, t⟩, scanned, made⟩ := bind_eq_ok.mp read
  have short := Decimal.short_of_scan a.whole_digits (by decide) scanned
  rw [scan_chars short] at scanned
  obtain ⟨few, near⟩ := Decimal.near_scan_places a.places_digits short (Nat.zero_le _) scanned
  rw [← value_eq] at near
  simp only [Nat.mod_eq_of_lt (Nat.lt_succ_of_le few)] at made
  split at made
  · next here =>
    cases made
    rw [Decimal.magnitude_of_ofParts? here]
    exact near
  · cases made

end LayeredConfig.Number
