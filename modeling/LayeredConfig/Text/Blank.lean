/-!
# Blank characters

White space in the sense of the Unicode property `White_Space`, and the trimming built on it. Names,
templates and typed texts are all trimmed by this one rule. `trim_eq_self_of_ends` says which texts trimming
leaves alone.
-/

namespace LayeredConfig.Text

/-- The characters with the Unicode property `White_Space`. -/
def isBlank (c : Char) : Bool :=
  (0x9 ≤ c.val && c.val ≤ 0xD) || c.val == 0x20 || c.val == 0x85 || c.val == 0xA0 ||
  c.val == 0x1680 || (0x2000 ≤ c.val && c.val ≤ 0x200A) || c.val == 0x2028 || c.val == 0x2029 ||
  c.val == 0x202F || c.val == 0x205F || c.val == 0x3000

/-- Removes the blank characters at both ends. -/
def trim (cs : List Char) : List Char :=
  ((cs.dropWhile isBlank).reverse.dropWhile isBlank).reverse

/-- Trimming on strings. -/
def trimmed (s : String) : String :=
  String.ofList (trim s.toList)

/-- A text that holds nothing but blank characters. -/
def isBlankText (cs : List Char) : Bool :=
  cs.all isBlank

/-- A text whose first and last characters are not blank is left as it is. -/
theorem trim_eq_self_of_ends {cs : List Char} (first : ∀ c ∈ cs.head?, isBlank c = false)
    (last : ∀ c ∈ cs.getLast?, isBlank c = false) : trim cs = cs := by
  have dropFront : ∀ {xs : List Char}, (∀ c ∈ xs.head?, isBlank c = false) →
      xs.dropWhile isBlank = xs := by
    intro xs h
    cases xs with
    | nil => rfl
    | cons c rest => simp [List.dropWhile, h c rfl]
  rw [trim, dropFront first, dropFront (by simpa using last), List.reverse_reverse]

end LayeredConfig.Text
