import LayeredConfig.Text.Blank
import Mathlib

/-!
# ASCII letters and digits

Letters, digits and blank characters are different characters, and changing the case of a letter makes no
digit of it.
-/

namespace LayeredConfig.Text

variable {c : Char}

theorem isAlpha_iff_toNat : c.isAlpha = true ↔
    (65 ≤ c.toNat ∧ c.toNat ≤ 90) ∨ (97 ≤ c.toNat ∧ c.toNat ≤ 122) := by
  simp [Char.isAlpha, Char.isUpper, Char.isLower, UInt32.le_iff_toNat_le, ← Char.toNat_val]

theorem toNat_lt_of_isAlpha (letter : c.isAlpha = true) : c.toNat < 0x80 := by
  have code := isAlpha_iff_toNat.mp letter
  omega

theorem isAlpha_of_isLower (small : c.isLower = true) : c.isAlpha = true := by
  rw [Char.isAlpha, small, Bool.or_true]

theorem not_isDigit_of_isAlpha (letter : c.isAlpha = true) : c.isDigit = false := by
  rw [← Bool.not_eq_true]
  intro digit
  have low : c.toNat ≤ 57 := (Char.isDigit_iff_toNat.mp digit).2
  have code := isAlpha_iff_toNat.mp letter
  omega

theorem toLower_of_not_isAlpha (other : ¬c.isAlpha = true) : c.toLower = c :=
  Char.toLower_eq_of_not_isUpper fun capital => other (by rw [Char.isAlpha, capital, Bool.true_or])

/-- Only letters become letters. -/
theorem toLower_eq_iff {d : Char} (other : ¬d.isAlpha = true) : c.toLower = d ↔ c = d := by
  constructor
  · rintro rfl
    rw [Char.isAlpha_toLower_eq_isAlpha] at other
    exact (toLower_of_not_isAlpha other).symm
  · rintro rfl
    exact toLower_of_not_isAlpha other

theorem isDigit_toLower (c : Char) : c.toLower.isDigit = c.isDigit := by
  by_cases letter : c.isAlpha = true
  · rw [not_isDigit_of_isAlpha letter,
      not_isDigit_of_isAlpha (by rwa [Char.isAlpha_toLower_eq_isAlpha])]
  · rw [toLower_of_not_isAlpha letter]

theorem not_isBlank_of_isAlphanum (visible : c.isAlphanum = true) : isBlank c = false := by
  have high : 48 ≤ c.toNat ∧ c.toNat ≤ 122 := by
    rcases Bool.or_eq_true _ _ ▸ visible with letter | digit
    · have code := isAlpha_iff_toNat.mp letter
      omega
    · have code : 48 ≤ c.toNat ∧ c.toNat ≤ 57 := Char.isDigit_iff_toNat.mp digit
      omega
  rw [← Bool.not_eq_true]
  intro blank
  simp only [isBlank, Bool.or_eq_true, Bool.and_eq_true, decide_eq_true_eq, beq_iff_eq,
    UInt32.le_iff_toNat_le, ← UInt32.toNat_inj, Char.toNat_val, UInt32.reduceToNat] at blank
  omega

end LayeredConfig.Text
