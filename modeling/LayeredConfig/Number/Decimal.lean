import LayeredConfig.Number.Binary

/-!
# Decimals of limited precision

A decimal is a mantissa of at most 96 bits with a sign and a scale, the number of its places after the
point, of which there are at most 28. The scale is part of the value: `1.50` is not `1.5`.

`Decimal.fit` is the one rounding rule of the arithmetic: an exact result that is too long loses the
fewest places that make it fit, and rounds half to even. A result that fits is exact (`fit_exact`).
-/

namespace LayeredConfig.Number

/-- The first mantissa that is too long. -/
def mantissaLimit : Nat := Nat.pow 2 96

/-- The largest number of places after the point. -/
def maxScale : Nat := 28

/-- The number `± mantissa / 10 ^ scale`. -/
structure Decimal where
  negative : Bool
  mantissa : Nat
  scale : Nat
  mantissa_lt : mantissa < mantissaLimit
  scale_le : scale ≤ maxScale
deriving DecidableEq

namespace Decimal

/-- Zero without a sign and without places. -/
def zero : Decimal :=
  ⟨false, 0, 0, by decide, by decide⟩

/-- The decimal with these parts, if they are within the limits. -/
def ofParts? (negative : Bool) (mantissa scale : Nat) : Option Decimal :=
  if h : mantissa < mantissaLimit ∧ scale ≤ maxScale then some ⟨negative, mantissa, scale, h.1, h.2⟩
  else none

/-- The number of places to drop from a mantissa so that it fits: the first of the candidates that is
enough. -/
def excessPlaces? (mantissa scale : Nat) : Option Nat :=
  (List.range (scale + 1)).find? fun places => mantissa / Nat.pow 10 places < mantissaLimit

/-- The decimal nearest to `± mantissa / 10 ^ scale` with as many places as fit. If rounding makes the
mantissa too long again, one more place goes. There is none if the places before the point do not
fit. -/
def fit (negative : Bool) (mantissa scale : Nat) : Option Decimal := do
  let places ← excessPlaces? mantissa scale
  let rounded := roundDiv .toEven mantissa (Nat.pow 10 places)
  if rounded < mantissaLimit then ofParts? negative rounded (scale - places)
  else if places < scale then
    ofParts? negative (roundDiv .toEven rounded 10) (scale - places - 1)
  else none

/-- Is it zero, with or without a sign? -/
def isZero (d : Decimal) : Bool :=
  d.mantissa == 0

/-- The product with a natural number. -/
def mulNat (d : Decimal) (n : Nat) : Option Decimal :=
  if d.isZero || n == 0 then some zero else fit d.negative (d.mantissa * n) d.scale

/-- The mantissa of the same number with `scale` places. -/
def mantissaAt (d : Decimal) (scale : Nat) : Nat :=
  d.mantissa * Nat.pow 10 (scale - d.scale)

/-- The sum of two decimals that are not negative. -/
def addMagnitudes (d e : Decimal) : Option Decimal :=
  if d.isZero then some e
  else if e.isZero then some d
  else
    let scale := max d.scale e.scale
    fit false (d.mantissaAt scale + e.mantissaAt scale) scale

/-- The part before the point. -/
def whole (d : Decimal) : Nat :=
  d.mantissa / Nat.pow 10 d.scale

/-- Drops the zeros at the end of the places after the point. -/
def dropZeros (mantissa : Nat) : Nat → Nat × Nat
  | 0 => (mantissa, 0)
  | scale + 1 =>
    if mantissa % 10 = 0 then dropZeros (mantissa / 10) scale else (mantissa, scale + 1)

/-- The same number without zeros at the end of its places. -/
def normalize (d : Decimal) : Option Decimal :=
  if d.isZero then some zero
  else
    let (mantissa, scale) := dropZeros d.mantissa d.scale
    ofParts? d.negative mantissa scale

/-- The decimal of an integer. -/
def ofInt? (n : Int) : Option Decimal :=
  ofParts? (n < 0) n.natAbs 0

/-- Half an odd mantissa is five of the next place. Turns `mantissa * 2 ^ -steps * 10 ^ exponent` into
a mantissa and a power of ten, losing the last bit where a fifth would be too long. -/
def absorbHalves : Nat → Nat → Int → Nat × Int
  | 0, mantissa, exponent => (mantissa, exponent)
  | steps + 1, mantissa, exponent =>
    if mantissa % 2 = 0 then absorbHalves steps (mantissa / 2) (exponent + 1)
    else if 5 * mantissa < mantissaLimit then absorbHalves steps (5 * mantissa) exponent
    else absorbHalves steps (mantissa / 2) (exponent + 1)

/-- Doubles the mantissa while it fits, and afterwards takes tenths of ten halves. -/
def absorbDoubles : Nat → Nat → Int → Nat × Int
  | 0, mantissa, exponent => (mantissa, exponent)
  | steps + 1, mantissa, exponent =>
    if 2 * mantissa < mantissaLimit then absorbDoubles steps (2 * mantissa) (exponent - 1)
    else absorbDoubles steps (mantissa / 5) exponent

/-- Drops the last digit, rounding half up. -/
def dropDigit (mantissa : Nat) : Nat :=
  roundDiv .up mantissa 10

/-- Drops places until at most 28 are left. A mantissa that vanishes is zero without places. -/
def dropToScale : Nat → Nat → Nat × Nat
  | mantissa, 0 => (mantissa, 0)
  | mantissa, scale + 1 =>
    if scale + 1 ≤ maxScale then (mantissa, scale + 1)
    else if mantissa / 10 = 0 then (0, 0)
    else dropToScale (dropDigit mantissa) scale

/-- The mantissas above are longer than what a binary number of 64 bits can tell apart. -/
def binaryPrecision : Nat := Nat.pow 2 52

/-- Drops places while the mantissa is longer than what a binary number can tell apart. -/
def dropNoise : Nat → Nat → Nat × Nat
  | mantissa, 0 => (mantissa, 0)
  | mantissa, scale + 1 =>
    if binaryPrecision ≤ mantissa then dropNoise (dropDigit mantissa) scale
    else (mantissa, scale + 1)

/-- The decimal of a binary number: its value in at most 28 places, without the places that carry no
information and without zeros at the end. Numbers that are too large, infinities and NaN have none. -/
def ofBinary64? (x : Binary64) : Option Decimal :=
  match x.unpack with
  | .nan => none
  | .infinite _ => none
  | .finite negative significand exponent =>
    if significand = 0 then ofParts? negative 0 0
    else
      let (mantissa, ten) :=
        if exponent < 0 then absorbHalves exponent.natAbs significand exponent
        else absorbDoubles exponent.natAbs significand exponent
      if 0 ≤ ten then ofParts? negative (mantissa * Nat.pow 10 ten.toNat) 0
      else
        let (mantissa, scale) := dropToScale mantissa ten.natAbs
        let (mantissa, scale) := dropNoise mantissa scale
        let (mantissa, scale) := dropZeros mantissa scale
        ofParts? negative mantissa scale

/-- The text of a decimal, with all places of its scale. -/
def display (d : Decimal) : String :=
  let digits := Nat.toDigits 10 d.mantissa
  let padded := List.replicate (d.scale + 1 - digits.length) '0' ++ digits
  let whole := padded.take (padded.length - d.scale)
  let places := padded.drop (padded.length - d.scale)
  String.ofList ((if d.negative then ['-'] else []) ++ whole ++
    if places.isEmpty then [] else '.' :: places)

/-- A result that is within the limits is exact. -/
theorem fit_exact {negative : Bool} {mantissa scale : Nat} (h : mantissa < mantissaLimit)
    (hs : scale ≤ maxScale) : fit negative mantissa scale = some ⟨negative, mantissa, scale, h, hs⟩ := by
  have places : excessPlaces? mantissa scale = some 0 := by
    unfold excessPlaces?
    rw [List.range_succ_eq_map, List.find?_cons_of_pos]
    simpa using h
  have same : roundDiv .toEven mantissa 1 = mantissa := by
    simp [roundDiv, Tie.roundsUp, Nat.mod_one]
  simp [fit, places, same, h, hs, ofParts?]

end Decimal

end LayeredConfig.Number
