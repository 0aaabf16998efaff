import LayeredConfig.Number.Shortest

/-!
# The text of binary numbers

Reading a binary number from a text rounds the decimal once, to the nearest number of the format.
Writing one for people never uses an exponent and marks integral numbers by `.0`.
-/

namespace LayeredConfig.Number

/-- Why a text is no binary number. -/
inductive FloatFault where
  | empty
  | invalid
deriving DecidableEq, Repr

/-- The wording of a fault. -/
def FloatFault.message : FloatFault → String
  | .empty => "cannot parse float from empty string"
  | .invalid => "invalid float literal"

/-- Takes one sign off, if there is one. -/
def takeSign : List Char → Bool × List Char
  | '-' :: rest => (true, rest)
  | '+' :: rest => (false, rest)
  | cs => (false, cs)

/-- The number written with decimal digits. -/
def digitsValue (digits : List Char) : Nat :=
  Nat.ofDigitChars 10 digits 0

/-- The exponent behind its letter: an optional sign and at least one digit. -/
def readExponent? (cs : List Char) : Option Int :=
  let (negative, digits) := takeSign cs
  if digits.isEmpty || !digits.all Char.isDigit then none
  else some (if negative then -(digitsValue digits : Int) else digitsValue digits)

/-- A decimal without its sign: digits, a point with digits after it, and an exponent. There is a digit
before the point or after it. The result is the digits as a number and the exponent of the last. -/
def readDecimal? (cs : List Char) : Option (Nat × Int) := do
  let whole := cs.takeWhile Char.isDigit
  let rest := cs.dropWhile Char.isDigit
  let (fraction, rest) := match rest with
    | '.' :: rest => (rest.takeWhile Char.isDigit, rest.dropWhile Char.isDigit)
    | rest => ([], rest)
  if whole.isEmpty && fraction.isEmpty then none
  else
    let digits := digitsValue (whole ++ fraction)
    match rest with
    | [] => some (digits, -(fraction.length : Int))
    | c :: rest =>
      if c == 'e' || c == 'E' then
        let exponent ← readExponent? rest
        some (digits, exponent - fraction.length)
      else none

/-- The word of the number of format `f` that a text stands for. Infinity and NaN have names, in any
case of ASCII letters. -/
def readFloat (f : Format) (text : String) : Except FloatFault Nat :=
  if text.isEmpty then .error .empty
  else
    let (negative, rest) := takeSign text.toList
    let sign := if negative then f.signBit else 0
    let name := rest.map Char.toLower
    if name = "inf".toList || name = "infinity".toList then .ok (sign + f.infinity)
    else if name = "nan".toList then .ok (sign + f.infinity + Nat.pow 2 (f.fractionBits - 1))
    else match readDecimal? rest with
      | some (digits, exponent) => .ok (f.roundDecimal negative digits exponent)
      | none => .error .invalid

/-- A sign in front of negative numbers. -/
def signed (negative : Bool) (text : String) : String :=
  if negative then "-" ++ text else text

/-- Is the number an integer? -/
def isIntegral (significand : Nat) (exponent : Int) : Bool :=
  significand % Nat.pow 2 (-exponent).toNat = 0

/-- The text of a number for people: an integral number in full with `.0`, any other with the fewest
digits that read back, and never an exponent. -/
def Binary64.display (x : Binary64) : String :=
  match x.unpack with
  | .nan => "NaN"
  | .infinite negative => signed negative "inf"
  | .finite negative significand exponent =>
    let (num, den) := magnitudeRatio significand exponent
    signed negative <|
      if isIntegral significand exponent then String.ofList (Nat.toDigits 10 (num / den)) ++ ".0"
      else (shortest .double .up significand exponent).positional

/-- The text of a finite number in a document, with the fewest digits that read back. -/
def documentText (style : ExponentStyle) (negative : Bool) (significand : Nat) (exponent : Int) :
    String :=
  signed negative <|
    if significand = 0 then "0.0"
    else (shortest .double .toEven significand exponent).scientific style

end LayeredConfig.Number
