/-!
# Rounding a quotient

Quotients of natural numbers, rounded to the nearest natural number. `roundDiv_within_half` says that
the result is off by at most one half, whichever way a tie goes.
-/

namespace LayeredConfig.Number

/-- Where a quotient goes that lies halfway between two numbers. -/
inductive Tie where
  /-- To the even one. -/
  | toEven
  /-- To the larger one. -/
  | up
deriving DecidableEq, Repr

/-- Does the remainder `rest` of a division by `den` with quotient `quotient` round up? -/
def Tie.roundsUp (tie : Tie) (quotient rest den : Nat) : Bool :=
  den < 2 * rest || (2 * rest == den && (tie == .up || quotient % 2 == 1))

/-- The natural number nearest to `num / den`. -/
def roundDiv (tie : Tie) (num den : Nat) : Nat :=
  num / den + if tie.roundsUp (num / den) (num % den) den then 1 else 0

/-- The rounded quotient is off by at most one half. -/
theorem roundDiv_within_half (tie : Tie) (num : Nat) {den : Nat} (pos : 0 < den) :
    2 * (roundDiv tie num den * den) ≤ 2 * num + den ∧
      2 * num ≤ 2 * (roundDiv tie num den * den) + den := by
  have split := Nat.div_add_mod num den
  have small := Nat.mod_lt num pos
  rw [Nat.mul_comm] at split
  unfold roundDiv
  by_cases h : tie.roundsUp (num / den) (num % den) den = true
  · have half : den ≤ 2 * (num % den) := by
      simp only [Tie.roundsUp, Bool.or_eq_true, decide_eq_true_eq, Bool.and_eq_true,
        beq_iff_eq] at h
      omega
    rw [if_pos h, Nat.add_mul, Nat.one_mul]
    omega
  · have half : 2 * (num % den) ≤ den := by
      simp only [Tie.roundsUp, Bool.or_eq_true, decide_eq_true_eq, not_or] at h
      omega
    rw [if_neg h, Nat.add_zero]
    omega

end LayeredConfig.Number
