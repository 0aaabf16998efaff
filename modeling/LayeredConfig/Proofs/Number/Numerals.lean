import LayeredConfig.Proofs.Computation
import LayeredConfig.Proofs.Number.Amount

/-!
# Numerals

The text of an integer is its digits, behind a minus if it is negative. An integer type reads it as the integer
if that is in its range, and as nothing otherwise (`IntKind.readChars_toString`); the decimals read it as the
decimal of the integer (`Decimal.read_toString`).
-/

namespace LayeredConfig.Number

/-! ## The digits of a number -/

section Digits

variable {m limit n : Nat} {digits : List Char} {beyond : IntFault}

theorem toList_toString_ofNat (m : Nat) : (toString (Int.ofNat m)).toList = Nat.toDigits 10 m := by
  show (Nat.repr m).toList = _
  exact Nat.toList_repr

theorem toList_toString_negSucc (m : Nat) :
    (toString (Int.negSucc m)).toList = '-' :: Nat.toDigits 10 (m + 1) := by
  show ("-" ++ Nat.repr (m + 1)).toList = _
  rw [String.toList_append, Nat.toList_repr]
  rfl

theorem toDigits_digits (m : Nat) : ∀ c ∈ Nat.toDigits 10 m, c.isDigit = true := fun _ mem =>
  Nat.isDigit_of_mem_toDigits (by decide) (by decide) mem

/-- Digits are read as their number, as far as the limit. -/
theorem readDigits_eq (allDigits : ∀ c ∈ digits, c.isDigit = true) (within : n ≤ limit) :
    readDigits limit beyond n digits =
      if Nat.ofDigitChars 10 digits n ≤ limit then .ok (Nat.ofDigitChars 10 digits n)
      else .error beyond := by
  induction digits generalizing n with
  | nil => rw [Nat.ofDigitChars_nil, if_pos within, readDigits]
  | cons c digits ih =>
    obtain ⟨here, later⟩ := List.forall_mem_cons.mp allDigits
    rw [readDigits, here, Bool.not_true, if_neg Bool.false_ne_true, Nat.ofDigitChars_cons]
    by_cases next : 10 * n + (c.toNat - '0'.toNat) ≤ limit
    · rw [if_neg (Nat.not_lt.mpr next)]
      exact ih later next
    · have more := Nat.lt_of_lt_of_le (Nat.lt_of_not_le next) (le_ofDigitChars digits _)
      rw [if_neg (Nat.not_le.mpr more)]
      exact if_pos (Nat.lt_of_not_le next)

theorem readMagnitude_toDigits (m limit : Nat) (beyond : IntFault) :
    readMagnitude limit beyond (Nat.toDigits 10 m) = if m ≤ limit then .ok m else .error beyond := by
  have nonempty : (Nat.toDigits 10 m).isEmpty = false := List.isEmpty_eq_false_iff.mpr Nat.toDigits_ne_nil
  rw [readMagnitude, nonempty, if_neg Bool.false_ne_true, readDigits_eq (toDigits_digits m) (Nat.zero_le _),
    Nat.ofDigitChars_ten_toDigits]

end Digits

/-! ## Integer types -/

namespace IntKind

variable {k : IntKind} {n : Int} {c : Char} {rest : List Char}

/-- A text that begins with a digit has no sign. -/
theorem readChars_of_digit (digit : c.isDigit = true) :
    k.readChars (c :: rest) = (do return (← readMagnitude k.greatest .tooLarge (c :: rest) : Nat)) := by
  unfold readChars
  split
  · next same => exact absurd same (List.cons_ne_nil _ _)
  · next plus =>
    obtain ⟨rfl, -⟩ := List.cons.inj plus
    exact absurd digit (by decide)
  · next minus =>
    obtain ⟨rfl, -⟩ := List.cons.inj minus
    exact absurd digit (by decide)
  · rfl

theorem readChars_toDigits (m : Nat) :
    k.readChars (Nat.toDigits 10 m) = if m ≤ k.greatest then .ok m else .error .tooLarge := by
  obtain ⟨c, rest, shape, digit⟩ := exists_cons_digit (toDigits_digits m) Nat.toDigits_ne_nil
  rw [shape, readChars_of_digit digit, ← shape, readMagnitude_toDigits]
  split <;> rfl

theorem readChars_minus (m : Nat) :
    k.readChars ('-' :: Nat.toDigits 10 (m + 1)) =
      if k.signed then if m + 1 ≤ k.depth then .ok (Int.negSucc m) else .error .tooSmall
      else .error .invalidDigit := by
  rw [readChars]
  split
  · rw [readMagnitude_toDigits]
    split <;> rfl
  · rfl

theorem holds_ofNat_iff {m : Nat} : k.Holds (Int.ofNat m) ↔ m ≤ k.greatest := by
  unfold Holds
  rw [Int.ofNat_eq_natCast]
  omega

theorem holds_negSucc_iff {m : Nat} : k.Holds (Int.negSucc m) ↔ m + 1 ≤ k.depth := by
  unfold Holds
  omega

/-- The text of an integer is read as the integer if the type can hold it, and as nothing else. -/
theorem readChars_toString_eq_ok_iff {m : Int} :
    k.readChars (toString n).toList = .ok m ↔ k.Holds n ∧ n = m := by
  cases n with
  | ofNat i =>
    rw [toList_toString_ofNat, readChars_toDigits, holds_ofNat_iff]
    split
    · next within =>
      rw [Except.ok.injEq, and_iff_right within]
      rfl
    · next beyond => exact iff_of_false (fun same => nomatch same) fun both => beyond both.1
  | negSucc i =>
    rw [toList_toString_negSucc, readChars_minus, holds_negSucc_iff]
    split
    · split
      · next within => rw [Except.ok.injEq, and_iff_right within]
      · next beyond => exact iff_of_false (fun same => nomatch same) fun both => beyond both.1
    · next unsigned =>
      have shallow : k.depth = 0 := if_neg unsigned
      refine iff_of_false (fun same => nomatch same) fun both => ?_
      rw [shallow] at both
      exact Nat.not_succ_le_zero i both.1

theorem read_eq_ok_iff {text : String} {x : Ranged k} :
    k.read text = .ok x ↔ k.readChars text.toList = .ok x.value := by
  unfold read
  split
  · next m here =>
    constructor
    · rintro ⟨⟩
      exact here
    · intro same
      obtain ⟨value, within⟩ := x
      obtain rfl : m = value := Except.ok.inj (here.symm.trans same)
      rfl
  · next fault here =>
    rw [here]
    exact iff_of_false (fun same => nomatch same) fun same => nomatch same

theorem ofInt?_eq_some_iff {x : Ranged k} : k.ofInt? n = some x ↔ n = x.value := by
  unfold ofInt?
  obtain ⟨m, within⟩ := x
  constructor
  · intro made
    split at made
    · exact congrArg Ranged.value (Option.some.inj made)
    · cases made
  · rintro rfl
    exact dif_pos within

theorem ofInt?_eq_none_iff : k.ofInt? n = none ↔ ¬k.Holds n := by
  unfold ofInt?
  split
  · next within => exact iff_of_false (Option.some_ne_none _) (not_not_intro within)
  · next beyond => exact iff_of_true rfl beyond

/-- An integer and its text are read alike. -/
theorem read_toString_eq_ok_iff {x : Ranged k} :
    k.read (toString n) = .ok x ↔ k.ofInt? n = some x := by
  rw [read_eq_ok_iff, readChars_toString_eq_ok_iff, ofInt?_eq_some_iff]
  exact and_iff_right_of_imp fun same => same ▸ x.within

end IntKind

/-! ## Decimals -/

namespace Decimal

theorem scan_toDigits {m : Nat} (short : m < mantissaLimit) :
    scan ⟨0, 0, false, false, false⟩ (Nat.toDigits 10 m) = .ok (m, 0) := by
  have value : Nat.ofDigitChars 10 (Nat.toDigits 10 m) 0 = m := Nat.ofDigitChars_ten_toDigits
  have nonempty : (!(Nat.toDigits 10 m).isEmpty) = true := by
    rw [List.isEmpty_eq_false_iff.mpr Nat.toDigits_ne_nil, Bool.not_false]
  rw [← List.append_nil (Nat.toDigits 10 m), scan_whole (toDigits_digits m) [] (by rwa [value]), value, nonempty]
  rfl

theorem short_of_ofParts? {negative : Bool} {mantissa scale : Nat} {d : Decimal}
    (made : ofParts? negative mantissa scale = some d) : mantissa < mantissaLimit :=
  (parts_of_ofParts? made).2.1 ▸ d.mantissa_lt

/-- The text of an integer is read as its decimal. -/
theorem readPlain_toString {n : Int} {d : Decimal} (made : ofInt? n = some d) :
    readPlain (toString n).toList = .ok d := by
  cases n with
  | ofNat m =>
    have parts : ofParts? false m 0 = some d := made
    obtain ⟨c, rest, shape, digit⟩ := exists_cons_digit (toDigits_digits m) Nat.toDigits_ne_nil
    rw [toList_toString_ofNat, shape, readPlain_of_digit digit, ← shape]
    refine bind_eq_ok.mpr ⟨(m, 0), scan_toDigits (short_of_ofParts? parts), ?_⟩
    simp only [Nat.zero_mod, parts]
  | negSucc m =>
    have parts : ofParts? true (m + 1) 0 = some d := by
      rwa [ofInt?, decide_eq_true (Int.negSucc_lt_zero m), Int.natAbs_negSucc] at made
    rw [toList_toString_negSucc]
    refine bind_eq_ok.mpr ⟨(m + 1, 0), scan_toDigits (short_of_ofParts? parts), ?_⟩
    have nonzero : (true && m + 1 != 0) = true := rfl
    simp only [Nat.zero_mod, nonzero, parts]
    rfl

theorem read_toString {n : Int} {d : Decimal} (made : ofInt? n = some d) : read (toString n) = .ok d := by
  unfold read
  rw [readPlain_toString made]

/-- An integer of less than 96 bits is a decimal. -/
theorem exists_ofInt? {n : Int} (short : n.natAbs < mantissaLimit) :
    ∃ d, ofInt? n = some d ∧ d.value = n := by
  refine ⟨⟨n < 0, n.natAbs, 0, short, Nat.zero_le _⟩, dif_pos ⟨short, Nat.zero_le _⟩, ?_⟩
  show (if decide (n < 0) then -((n.natAbs : ℚ) / 10 ^ 0) else (n.natAbs : ℚ) / 10 ^ 0) = (n : ℚ)
  rw [pow_zero, div_one, Nat.cast_natAbs]
  by_cases negative : n < 0
  · rw [if_pos (decide_eq_true negative), abs_of_neg negative, Int.cast_neg, neg_neg]
  · rw [if_neg (by simpa using negative), abs_of_nonneg (Int.not_lt.mp negative)]

end Decimal

end LayeredConfig.Number
