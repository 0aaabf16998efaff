import LayeredConfig.Number.FloatText
import LayeredConfig.Number.Integer
import LayeredConfig.Scalar

/-!
# Numbers in JSON documents

A number without a fraction and an exponent is an integer if it fits 64 bits with a sign. Any other
number becomes a float in two steps. Its leading digits, as many as fit 64 bits without a sign, are
rounded to a float; this is multiplied with or divided by a power of ten that is itself a float, and
rounded again. The result may differ in its last bit from the float nearest to the number.
-/

namespace LayeredConfig.Json

open LayeredConfig.Number

/-- The largest number made of leading digits. -/
def significandLimit : Nat := Nat.pow 2 64 - 1

/-- Leading digits, and the power of ten to multiply them with. -/
structure Leading where
  significand : Nat
  exponent : Int

/-- Appends digits before the point. From the first that does not fit they only count. -/
def Leading.appendWhole (l : Leading) : List Char → Leading
  | [] => l
  | c :: rest =>
    let next := 10 * l.significand + (c.toNat - '0'.toNat)
    if next ≤ significandLimit then Leading.appendWhole ⟨next, l.exponent⟩ rest
    else ⟨l.significand, l.exponent + (rest.length + 1 : Nat)⟩

/-- Appends digits after the point. The first that does not fit ends the number. -/
def Leading.appendFraction (l : Leading) : List Char → Leading
  | [] => l
  | c :: rest =>
    let next := 10 * l.significand + (c.toNat - '0'.toNat)
    if next ≤ significandLimit then Leading.appendFraction ⟨next, l.exponent - 1⟩ rest
    else l

/-- A finite number that is not negative, as a quotient. -/
def ratio (word : Nat) : Nat × Nat :=
  match Format.double.unpack word with
  | .finite _ significand exponent => magnitudeRatio significand exponent
  | _ => (0, 1)

/-- The word of the product of two such numbers. -/
def times (x y : Nat) : Nat :=
  Format.double.round ((ratio x).1 * (ratio y).1) ((ratio x).2 * (ratio y).2)

/-- The word of the quotient of two such numbers. -/
def quotient (x y : Nat) : Nat :=
  Format.double.round ((ratio x).1 * (ratio y).2) ((ratio x).2 * (ratio y).1)

/-- The largest exponent of a power of ten that is a float. -/
def maxPower : Nat := 308

/-- The word of a power of ten. -/
def power (n : Nat) : Nat :=
  Format.double.round (Nat.pow 10 n) 1

/-- How often the smallest numbers can be divided by the largest power of ten until they vanish. -/
def scaleSteps : Nat := 4

/-- Scales the number `x` by a power of ten, in steps if it is far below one. There is none if the
result is too large. -/
def scale? (fuel x : Nat) (exponent : Int) : Option Nat :=
  if exponent.natAbs ≤ maxPower then
    if 0 ≤ exponent then
      let scaled := times x (power exponent.natAbs)
      if scaled = Format.double.infinity then none else some scaled
    else some (quotient x (power exponent.natAbs))
  else if x = 0 then some 0
  else if 0 ≤ exponent then none
  else match fuel with
    | 0 => some 0
    | fuel + 1 => scale? fuel (quotient x (power maxPower)) (exponent + maxPower)

/-- The float with the given digits, if it is not too large. -/
def Leading.toFloat? (negative : Bool) (l : Leading) : Option Literal :=
  (scale? scaleSteps (Format.double.round l.significand 1) l.exponent).map fun word =>
    .float (.ofWord ((if negative then Format.double.signBit else 0) + word))

/-- The number that an integer text stands for: an integer of 64 bits if possible, else a float. Zero
with a sign is a float. -/
def integerLiteral (negative : Bool) (significand : Nat) : Literal :=
  let n : Int := if negative then -significand else significand
  if IntKind.i64.Holds n ∧ ¬(negative ∧ significand = 0) then .integer (Int64.ofInt n)
  else
    .float (.ofWord (Format.double.roundSigned negative significand 1))

/-- The literal that the text of a JSON number stands for, if it is not too large for a float. -/
def numberLiteral? (text : String) : Option Literal :=
  let (negative, cs) := takeSign text.toList
  let whole := cs.takeWhile Char.isDigit
  let rest := cs.dropWhile Char.isDigit
  let leading := Leading.appendWhole ⟨0, 0⟩ whole
  match rest with
  | [] =>
    if leading.exponent = 0 then some (integerLiteral negative leading.significand)
    else leading.toFloat? negative
  | '.' :: rest =>
    let leading := leading.appendFraction (rest.takeWhile Char.isDigit)
    let shift := (readExponent? ((rest.dropWhile Char.isDigit).drop 1)).getD 0
    Leading.toFloat? negative ⟨leading.significand, leading.exponent + shift⟩
  | _ :: exponent =>
    let shift := (readExponent? exponent).getD 0
    Leading.toFloat? negative ⟨leading.significand, leading.exponent + shift⟩

end LayeredConfig.Json
