import LayeredConfig.Number.Rounding

/-!
# Binary floating-point numbers

The binary interchange formats with 64 and 32 bits, as words. A finite word stands for
`± significand * 2 ^ exponent`, and every operation here works on that exact value and rounds once, to
the nearest number of the format, ties to even. Nothing depends on machine arithmetic, and two words
are equal only if all their bits are.

* `Format.unpack` reads a word and `Format.round` writes one;
* `Binary64` and `Binary32` are the words with the operations that configurations need.
-/

namespace LayeredConfig.Number

/-- A binary interchange format: a sign bit, then an exponent field, then a fraction field. -/
structure Format where
  fractionBits : Nat
  exponentBits : Nat

/-- What a word stands for. -/
inductive Unpacked where
  /-- The number `± significand * 2 ^ exponent`. -/
  | finite (negative : Bool) (significand : Nat) (exponent : Int)
  | infinite (negative : Bool)
  | nan
deriving DecidableEq, Repr

namespace Format

/-- Words of 64 bits. -/
def double : Format := ⟨52, 11⟩

/-- Words of 32 bits. -/
def single : Format := ⟨23, 8⟩

/-- The exponent of the last place of the smallest numbers. -/
def leastExponent (f : Format) : Int :=
  2 - Nat.pow 2 (f.exponentBits - 1) - f.fractionBits

/-- The word of positive infinity, which is above all words of positive finite numbers. -/
def infinity (f : Format) : Nat :=
  (Nat.pow 2 f.exponentBits - 1) * Nat.pow 2 f.fractionBits

/-- The word of negative zero, which is the value of the sign bit. -/
def signBit (f : Format) : Nat :=
  Nat.pow 2 (f.fractionBits + f.exponentBits)

/-- Reads a word. -/
def unpack (f : Format) (word : Nat) : Unpacked :=
  let negative := f.signBit ≤ word
  let magnitude := word % f.signBit
  let field := magnitude / Nat.pow 2 f.fractionBits
  let fraction := magnitude % Nat.pow 2 f.fractionBits
  if magnitude = f.infinity then .infinite negative
  else if f.infinity < magnitude then .nan
  else if field = 0 then .finite negative fraction f.leastExponent
  else .finite negative (Nat.pow 2 f.fractionBits + fraction) (f.leastExponent + (field - 1 : Nat))

/-- The exponent of the last place that a number near `num / den` has. The leading bit of a quotient
is at the difference of the lengths of its parts or one place below. -/
def lastPlace (f : Format) (num den : Nat) : Int :=
  let guess : Int := (num.log2 : Int) - den.log2
  let below := num * Nat.pow 2 (-guess).toNat < den * Nat.pow 2 guess.toNat
  max ((if below then guess - 1 else guess) - f.fractionBits) f.leastExponent

/-- The word of the number nearest to `num / den`, ties to even. A carry out of the fraction field
runs into the exponent field, as it should, and what is too large becomes infinity. -/
def round (f : Format) (num den : Nat) : Nat :=
  if num = 0 then 0
  else
    let last := f.lastPlace num den
    let significand := roundDiv .toEven (num * Nat.pow 2 (-last).toNat) (den * Nat.pow 2 last.toNat)
    min ((last - f.leastExponent).toNat * Nat.pow 2 f.fractionBits + significand) f.infinity

/-- The word of the number nearest to `± num / den`. -/
def roundSigned (f : Format) (negative : Bool) (num den : Nat) : Nat :=
  (if negative then f.signBit else 0) + f.round num den

/-- Decimal exponents that no format with at most 64 bits reaches. -/
def decimalReach : Int := 400

/-- The word of the number nearest to `± digits * 10 ^ exponent`. Numbers far out of reach are
infinite or zero, which saves computing their powers of ten. -/
def roundDecimal (f : Format) (negative : Bool) (digits : Nat) (exponent : Int) : Nat :=
  let leading : Int := exponent + (Nat.toDigits 10 digits).length
  if digits = 0 then f.roundSigned negative 0 1
  else if decimalReach < leading then (if negative then f.signBit else 0) + f.infinity
  else if leading < -decimalReach then f.roundSigned negative 0 1
  else f.roundSigned negative (digits * Nat.pow 10 exponent.toNat) (Nat.pow 10 (-exponent).toNat)

end Format

/-- The absolute value of a finite number as a quotient. -/
def magnitudeRatio (significand : Nat) (exponent : Int) : Nat × Nat :=
  (significand * Nat.pow 2 exponent.toNat, Nat.pow 2 (-exponent).toNat)

/-- A word of 64 bits. -/
structure Binary64 where
  bits : UInt64
deriving DecidableEq, Repr

/-- A word of 32 bits. -/
structure Binary32 where
  bits : UInt32
deriving DecidableEq, Repr

namespace Binary32

/-- What the word stands for. -/
def unpack (x : Binary32) : Unpacked :=
  Format.single.unpack x.bits.toNat

/-- The number with the given word. -/
def ofWord (word : Nat) : Binary32 :=
  ⟨UInt32.ofNat word⟩

/-- The quiet NaN. -/
def nan : Binary32 := ofWord 0x7FC00000

/-- The number nearest to an integer. -/
def ofInt (n : Int) : Binary32 :=
  ofWord (Format.single.roundSigned (n < 0) n.natAbs 1)

end Binary32

namespace Binary64

/-- What the word stands for. -/
def unpack (x : Binary64) : Unpacked :=
  Format.double.unpack x.bits.toNat

/-- The number with the given word. -/
def ofWord (word : Nat) : Binary64 :=
  ⟨UInt64.ofNat word⟩

/-- The quiet NaN. -/
def nan : Binary64 := ofWord 0x7FF8000000000000

/-- The zero without a sign. -/
def zero : Binary64 := ofWord 0

/-- The zero with a sign. -/
def negZero : Binary64 := ofWord Format.double.signBit

/-- Is the number one of the two zeros? -/
def isZero (x : Binary64) : Bool :=
  x = zero || x = negZero

/-- Is the word one of the NaNs? -/
def isNaN (x : Binary64) : Bool :=
  x.unpack = .nan

/-- Equality of numbers: a NaN equals nothing, and the two zeros are equal. -/
def numEq (x y : Binary64) : Bool :=
  !x.isNaN && !y.isNaN && (x = y || (x.isZero && y.isZero))

/-- The number nearest to an integer. -/
def ofInt (n : Int) : Binary64 :=
  ofWord (Format.double.roundSigned (n < 0) n.natAbs 1)

/-- The number of 32 bits nearest to `x`. -/
def toBinary32 (x : Binary64) : Binary32 :=
  match x.unpack with
  | .nan => .nan
  | .infinite negative =>
    .ofWord ((if negative then Format.single.signBit else 0) + Format.single.infinity)
  | .finite negative significand exponent =>
    let (num, den) := magnitudeRatio significand exponent
    .ofWord (Format.single.roundSigned negative num den)

end Binary64

end LayeredConfig.Number
