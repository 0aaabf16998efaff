import LayeredConfig.Number.Binary

/-!
# Shortest decimals

The decimal with the fewest digits that reads back as a given binary number and, of those, the one
nearest to it. All decimals between the midpoints to the two neighbouring numbers read back as the
number, the midpoints themselves only if its significand is even. On a decimal grid at most two points
can be nearest, the one below and the one above; the first grid with a hit, from coarse to fine, gives
the digits.
-/

namespace LayeredConfig.Number

/-- A positive decimal: `digits * 10 ^ exponent`. -/
structure DecimalDigits where
  digits : Nat
  exponent : Int
deriving DecidableEq, Repr

/-- The positive reals that round to one number, over the common denominator `den`: from `low` to
`high`, with `value` between them. -/
structure RoundingInterval where
  low : Nat
  value : Nat
  high : Nat
  den : Nat
  /-- Do the ends belong to it? -/
  closed : Bool

/-- The interval around `significand * 2 ^ exponent`. Below a power of two the numbers are twice as
dense, except among the smallest ones. -/
def roundingInterval (f : Format) (significand : Nat) (exponent : Int) : RoundingInterval :=
  let below := if significand = Nat.pow 2 f.fractionBits && f.leastExponent < exponent then 1 else 2
  let scale := Nat.pow 2 exponent.toNat
  { low := (4 * significand - below) * scale
    value := 4 * significand * scale
    high := (4 * significand + 2) * scale
    den := 4 * Nat.pow 2 (-exponent).toNat
    closed := significand % 2 == 0 }

/-- Does `point * num / den` read back as the number of the interval? -/
def RoundingInterval.contains (i : RoundingInterval) (point num den : Nat) : Bool :=
  let here := point * num * i.den
  if i.closed then i.low * den ≤ here && here ≤ i.high * den
  else i.low * den < here && here < i.high * den

/-- The point of the grid `10 ^ exponent * ℕ` that reads back as the number and is nearest to it. -/
def RoundingInterval.onGrid? (i : RoundingInterval) (tie : Tie) (exponent : Int) : Option Nat :=
  let num := Nat.pow 10 exponent.toNat
  let den := Nat.pow 10 (-exponent).toNat
  let below := i.value * den / (i.den * num)
  let hitsBelow := i.contains below num den
  let hitsAbove := i.contains (below + 1) num den
  if hitsBelow && hitsAbove then some (roundDiv tie (i.value * den) (i.den * num))
  else if hitsBelow then some below
  else if hitsAbove then some (below + 1)
  else none

/-- Removes the zeros at the end of the digits. -/
def DecimalDigits.strip (fuel : Nat) (d : DecimalDigits) : DecimalDigits :=
  match fuel with
  | 0 => d
  | fuel + 1 =>
    if d.digits % 10 = 0 && d.digits ≠ 0 then
      strip fuel ⟨d.digits / 10, d.exponent + 1⟩
    else d

/-- A power of ten above the number: at most three tenths of a decimal place for each bit. -/
def coarsestGrid (significand : Nat) (exponent : Int) : Int :=
  ((significand.log2 : Int) + exponent + 1) * 30103 / 100000 + 1

/-- More grids than are ever needed: seventeen digits always suffice. -/
def gridCount : Nat := 24

/-- The shortest decimal that reads back as `significand * 2 ^ exponent`, which is positive. -/
def shortest (f : Format) (tie : Tie) (significand : Nat) (exponent : Int) : DecimalDigits :=
  let i := roundingInterval f significand exponent
  let top := coarsestGrid significand exponent
  let found := (List.range gridCount).findSome? fun (n : Nat) =>
    (i.onGrid? tie (top - n)).map fun digits => DecimalDigits.mk digits (top - n)
  (found.getD ⟨0, 0⟩).strip gridCount

/-- The decimal written without an exponent: all places down to the units, and a point before the
others. -/
def DecimalDigits.positional (d : DecimalDigits) : String :=
  let digits := Nat.toDigits 10 d.digits
  if 0 ≤ d.exponent then
    String.ofList (digits ++ List.replicate d.exponent.toNat '0')
  else
    let places := (-d.exponent).toNat
    let padded := List.replicate (places + 1 - digits.length) '0' ++ digits
    String.ofList (padded.take (padded.length - places) ++
      '.' :: padded.drop (padded.length - places))

/-- How documents write exponents that are not negative. -/
structure ExponentStyle where
  /-- What stands before the digits of an exponent that is not negative. -/
  mark : String

/-- Up to this place before the point, documents write numbers without an exponent. -/
def highestPlainPlace : Int := 16

/-- Down to this place, documents write numbers without an exponent. -/
def lowestPlainPlace : Int := -4

/-- The decimal as documents write it: positional with at least one place after the point if its first
digit is in the plain range, else one digit, the others after a point, and an exponent. -/
def DecimalDigits.scientific (style : ExponentStyle) (d : DecimalDigits) : String :=
  let digits := Nat.toDigits 10 d.digits
  let place : Int := d.exponent + digits.length
  if lowestPlainPlace ≤ place && place ≤ highestPlainPlace then
    d.positional ++ if 0 ≤ d.exponent then ".0" else ""
  else
    let mantissa := match digits with
      | first :: rest@(_ :: _) => first :: '.' :: rest
      | digits => digits
    let exponent := place - 1
    String.ofList mantissa ++
      (if exponent < 0 then "e-" else style.mark) ++ toString exponent.natAbs

end LayeredConfig.Number
