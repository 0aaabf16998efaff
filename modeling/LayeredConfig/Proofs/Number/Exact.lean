import LayeredConfig.Number.DecimalText
import Mathlib.Algebra.Order.Floor.Semifield
import Mathlib.Data.Rat.Floor
import Mathlib.Tactic.FieldSimp
import Mathlib.Tactic.Linarith
import Mathlib.Tactic.Ring

/-!
# Decimals without rounding

A result of the decimal arithmetic is exact whenever a decimal can hold it (`Decimal.Fits`), also where the
mantissa would be too long and has to lose zeros at its end first. `Computes` says of products and of sums
what there is to know for this and for the rounding; `Computes.exists_of_fits` is the result.
-/

namespace LayeredConfig.Number

theorem roundDiv_mul (tie : Tie) (a : Nat) {b : Nat} (positive : 0 < b) : roundDiv tie (a * b) b = a := by
  unfold roundDiv
  rw [Nat.mul_div_cancel a positive, Nat.mul_mod_left]
  have down : tie.roundsUp a 0 b = false := by
    simp [Tie.roundsUp, Nat.ne_of_lt positive]
  rw [down]
  rfl

namespace Decimal

/-! ## The numbers of decimals -/

/-- The number that a decimal stands for, without its sign. -/
def magnitude (d : Decimal) : ℚ :=
  d.mantissa / 10 ^ d.scale

/-- The number that a decimal stands for. -/
def value (d : Decimal) : ℚ :=
  if d.negative then -d.magnitude else d.magnitude

/-- A decimal can hold the number: a mantissa of 96 bits with 28 places is enough for it. -/
def Fits (q : ℚ) : Prop :=
  ∃ mantissa scale : Nat, mantissa < 2 ^ 96 ∧ scale ≤ 28 ∧ q = mantissa / 10 ^ scale

theorem parts_of_ofParts? {negative : Bool} {mantissa scale : Nat} {d : Decimal}
    (made : ofParts? negative mantissa scale = some d) :
    d.negative = negative ∧ d.mantissa = mantissa ∧ d.scale = scale := by
  unfold ofParts? at made
  split at made
  · obtain rfl := Option.some.inj made
    exact ⟨rfl, rfl, rfl⟩
  · cases made

theorem fits_natCast {n : Nat} (short : n < 2 ^ 96) : Fits n :=
  ⟨n, 0, short, Nat.zero_le _, by rw [pow_zero, div_one]⟩

theorem pow_pos_ten (n : Nat) : (0 : ℚ) < 10 ^ n := by positivity

/-- Two fractions of powers of ten are equal if their cross products are. -/
theorem div_pow_eq_iff {a b m n : Nat} :
    (a / 10 ^ m : ℚ) = b / 10 ^ n ↔ a * 10 ^ n = b * 10 ^ m := by
  rw [div_eq_div_iff (pow_pos_ten m).ne' (pow_pos_ten n).ne']
  exact_mod_cast Iff.rfl

theorem fits_iff {a m : Nat} :
    Fits (a / 10 ^ m) ↔ ∃ mantissa scale, mantissa < mantissaLimit ∧ scale ≤ maxScale ∧
      a * 10 ^ scale = mantissa * 10 ^ m :=
  exists_congr fun _ => exists_congr fun _ => and_congr_right fun _ =>
    and_congr_right fun _ => div_pow_eq_iff

theorem magnitude_nonneg (d : Decimal) : 0 ≤ d.magnitude := by
  unfold magnitude
  positivity

theorem magnitude_zero : zero.magnitude = 0 := by
  simp [magnitude, zero]

theorem isZero_iff {d : Decimal} : d.isZero = true ↔ d.magnitude = 0 := by
  simp [isZero, magnitude]

/-- The part before the point. -/
theorem whole_eq_floor (d : Decimal) : d.whole = ⌊d.magnitude⌋₊ := by
  have cast : d.magnitude = (d.mantissa : ℚ) / ((10 ^ d.scale : Nat) : ℚ) := by
    rw [magnitude, Nat.cast_pow, Nat.cast_ofNat]
  rw [cast, Nat.floor_div_eq_div]
  rfl

/-! ## Results that fit -/

section Fit

variable {mantissa scale : Nat}

/-- As few places go as can. -/
theorem exists_excessPlaces? {places : Nat} (enough : mantissa / 10 ^ places < mantissaLimit)
    (within : places ≤ scale) :
    ∃ fewest ≤ places, excessPlaces? mantissa scale = some fewest ∧
      mantissa / 10 ^ fewest < mantissaLimit := by
  have found : (excessPlaces? mantissa scale).isSome = true := by
    unfold excessPlaces?
    rw [List.find?_isSome]
    exact ⟨places, List.mem_range.mpr (Nat.lt_succ_of_le within), decide_eq_true enough⟩
  obtain ⟨fewest, same⟩ := Option.isSome_iff_exists.mp found
  obtain ⟨fits, -, before⟩ := List.find?_range_eq_some.mp same
  refine ⟨fewest, ?_, same, of_decide_eq_true fits⟩
  by_contra later
  have notYet := before places (Nat.lt_of_not_le later)
  rw [Bool.not_eq_true', decide_eq_false_iff_not] at notYet
  exact notYet enough

/-- What fits into a decimal does so without rounding. -/
theorem exists_fit (negative : Bool) (within : scale ≤ maxScale) (fits : Fits (mantissa / 10 ^ scale)) :
    ∃ d, fit negative mantissa scale = some d ∧ d.magnitude = mantissa / 10 ^ scale := by
  obtain ⟨m, s, short, few, same⟩ := fits_iff.mp fits
  rcases Nat.le_total scale s with morePlaces | fewerPlaces
  · have bound : mantissa < mantissaLimit := by
      obtain ⟨k, rfl⟩ := Nat.exists_eq_add_of_le morePlaces
      have scaled : mantissa * 10 ^ k = m := by
        rw [Nat.pow_add, Nat.mul_comm (10 ^ scale), ← Nat.mul_assoc] at same
        exact Nat.eq_of_mul_eq_mul_right (by positivity) same
      calc
        mantissa ≤ mantissa * 10 ^ k := Nat.le_mul_of_pos_right _ (by positivity)
        _ = m := scaled
        _ < mantissaLimit := short
    exact ⟨_, fit_exact bound within, rfl⟩
  · obtain ⟨k, rfl⟩ := Nat.exists_eq_add_of_le fewerPlaces
    have longer : mantissa = m * 10 ^ k := by
      rw [Nat.pow_add, Nat.mul_comm (10 ^ s), ← Nat.mul_assoc] at same
      exact Nat.eq_of_mul_eq_mul_right (by positivity) same
    have enough : mantissa / 10 ^ k < mantissaLimit := by
      rw [longer, Nat.mul_div_cancel m (by positivity)]
      exact short
    obtain ⟨places, fewer, found, fitting⟩ := exists_excessPlaces? enough (Nat.le_add_left k s)
    obtain ⟨j, rfl⟩ := Nat.exists_eq_add_of_le fewer
    have split : mantissa = m * 10 ^ j * 10 ^ places := by
      rw [longer, Nat.mul_assoc, ← Nat.pow_add, Nat.add_comm j]
    have rounded : roundDiv .toEven mantissa (10 ^ places) = m * 10 ^ j := by
      rw [split]
      exact roundDiv_mul _ _ (by positivity)
    have short' : m * 10 ^ j < mantissaLimit := by
      rwa [split, Nat.mul_div_cancel _ (by positivity)] at fitting
    have places_le : s + (places + j) - places ≤ maxScale := by omega
    refine ⟨⟨negative, m * 10 ^ j, s + (places + j) - places, short', places_le⟩, ?_, ?_⟩
    · simp only [fit, found, Option.bind_eq_bind, Option.bind_some]
      rw [show Nat.pow 10 places = 10 ^ places from rfl, rounded, if_pos short', ofParts?,
        dif_pos ⟨short', places_le⟩]
    · rw [magnitude, div_pow_eq_iff, split]
      have exponents : s + (places + j) = places + (s + (places + j) - places) := by omega
      rw [Nat.mul_assoc _ (10 ^ places), ← Nat.pow_add, ← exponents]

end Fit

/-! ## The arithmetic -/

section Arithmetic

variable {d e : Decimal}

/-- What an operation gives whose exact result is the number.

* `exactly`: the number itself, as a decimal that is there already.
* `fitted`: a mantissa for the number, as far as it fits. -/
inductive Computes : Option Decimal → ℚ → Prop
  | exactly (d : Decimal) : Computes (some d) d.magnitude
  | fitted (negative : Bool) (mantissa : Nat) {scale : Nat} :
      scale ≤ maxScale → Computes (fit negative mantissa scale) (mantissa / 10 ^ scale)

theorem computes_mulNat (d : Decimal) (n : Nat) : Computes (d.mulNat n) (d.magnitude * n) := by
  unfold mulNat
  split
  · next zeroFactor =>
    have vanishes : d.magnitude * n = zero.magnitude := by
      rw [Bool.or_eq_true, isZero_iff, beq_iff_eq] at zeroFactor
      rcases zeroFactor with vanishes | rfl
      · rw [vanishes, zero_mul, magnitude_zero]
      · rw [Nat.cast_zero, mul_zero, magnitude_zero]
    rw [vanishes]
    exact .exactly zero
  · have product : d.magnitude * n = (d.mantissa * n : Nat) / 10 ^ d.scale := by
      rw [magnitude, Nat.cast_mul, mul_div_right_comm]
    rw [product]
    exact .fitted d.negative _ d.scale_le

theorem mantissaAt_div {scale : Nat} (le : d.scale ≤ scale) :
    (d.mantissaAt scale : ℚ) / 10 ^ scale = d.magnitude := by
  rw [magnitude, div_pow_eq_iff, mantissaAt]
  show d.mantissa * 10 ^ (scale - d.scale) * 10 ^ d.scale = _
  rw [Nat.mul_assoc, ← Nat.pow_add, Nat.sub_add_cancel le]

theorem computes_addMagnitudes (d e : Decimal) :
    Computes (d.addMagnitudes e) (d.magnitude + e.magnitude) := by
  unfold addMagnitudes
  split
  · next vanishes =>
    rw [isZero_iff.mp vanishes, zero_add]
    exact .exactly e
  · split
    · next vanishes =>
      rw [isZero_iff.mp vanishes, add_zero]
      exact .exactly d
    · have sum : d.magnitude + e.magnitude =
          ((d.mantissaAt (max d.scale e.scale) + e.mantissaAt (max d.scale e.scale) : Nat) : ℚ) /
            10 ^ max d.scale e.scale := by
        rw [Nat.cast_add, add_div, mantissaAt_div (le_max_left _ _), mantissaAt_div (le_max_right _ _)]
      rw [sum]
      exact .fitted false _ (max_le d.scale_le e.scale_le)

/-- A result that a decimal can hold is exact. -/
theorem Computes.exists_of_fits {result : Option Decimal} {q : ℚ} (computes : Computes result q)
    (fits : Fits q) : ∃ d, result = some d ∧ d.magnitude = q := by
  cases computes with
  | exactly d => exact ⟨d, rfl, rfl⟩
  | fitted negative mantissa within => exact exists_fit negative within fits

end Arithmetic

end Decimal

end LayeredConfig.Number
