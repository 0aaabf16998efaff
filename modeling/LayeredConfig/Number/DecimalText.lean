import LayeredConfig.Number.Decimal
import LayeredConfig.Number.Integer

/-!
# The text of decimals

A decimal is written with an optional sign, digits, and at most one point; underscores may stand after
the first digit. Places beyond the limits are rounded half up on the first of them, and only digits and
underscores may follow it. If a text is no such decimal it may be one with an exponent.
-/

namespace LayeredConfig.Number

/-- Why a text is no decimal. -/
inductive DecimalFault where
  | empty
  | unknownCharacter
  | twoPoints
  | leadingSeparator
  | noDigits
  | tooManyDigits
  /-- Rounding makes the digits before the point too many. -/
  | tooManyAfterRounding
  /-- There is no exponent, or it is no number. -/
  | noExponent
  /-- An exponent beyond the number of places. -/
  | exponentTooLarge (exponent : Nat)
  /-- The exponent makes the number too large. -/
  | tooLarge
deriving DecidableEq, Repr

/-- The wording of a fault. -/
def DecimalFault.message : DecimalFault → String
  | .empty => "Invalid decimal: empty"
  | .unknownCharacter => "Invalid decimal: unknown character"
  | .twoPoints => "Invalid decimal: two decimal points"
  | .leadingSeparator => "Invalid decimal: must start lead with a number"
  | .noDigits => "Invalid decimal: no digits found"
  | .tooManyDigits => "Invalid decimal: overflow from too many digits"
  | .tooManyAfterRounding => "Invalid decimal: overflow from mantissa after rounding"
  | .noExponent => "Failed to parse"
  | .exponentTooLarge exponent =>
    s!"Scale exceeds the maximum precision allowed: {exponent} > {maxScale}"
  | .tooLarge => "Number exceeds maximum value that can be represented."

namespace Decimal

/-- What was read of a decimal. -/
structure Reader where
  mantissa : Nat
  scale : Nat
  /-- Was there a point? -/
  point : Bool
  /-- Was there a digit? -/
  digit : Bool
  /-- Was there an underscore behind the last place? It lets one more digit in, if that fits. -/
  lookingAhead : Bool

/-- The fault of a character that cannot stand where it does. -/
def strayCharacter (c : Char) : DecimalFault :=
  if c = '.' then .twoPoints
  else if c = '_' then .leadingSeparator
  else .unknownCharacter

/-- The mantissa and the scale at the end of the text. -/
def Reader.finish (r : Reader) : Except DecimalFault (Nat × Nat) :=
  if r.digit then .ok (r.mantissa, r.scale) else .error .noDigits

/-- The mantissas from here on are wide. Below, another digit and a margin of one byte fit into 64
bits. -/
def wideMantissa : Nat := (Nat.pow 2 64 - 1) / 10 - 255

/-- Was the mantissa wide before its last digit? -/
def Reader.wide (r : Reader) : Bool :=
  wideMantissa ≤ r.mantissa / 10

/-- Is there no place left for another digit? -/
def Reader.full (r : Reader) : Bool :=
  r.point && maxScale ≤ r.scale && !r.lookingAhead

/-- May the character stand behind the digit that is rounded on? -/
def isRoundedAway (c : Char) : Bool :=
  c.isDigit || c == '_'

/-- Rounds half up on the first character that does not fit any more, where an underscore counts as a
zero. A mantissa that this makes too long loses its last place. -/
def Reader.roundOn (r : Reader) (c : Char) (rest : List Char) : Except DecimalFault (Nat × Nat) :=
  match (c :: rest).find? (!isRoundedAway ·) with
  | some stray => .error (strayCharacter stray)
  | none =>
    let rounded := r.mantissa + if c.isDigit && '5' ≤ c then 1 else 0
    if rounded < mantissaLimit then .ok (rounded, r.scale)
    else if r.scale = 0 then .error .tooManyAfterRounding
    else .ok ((rounded + 4) / 10, r.scale - 1)

/-- Reads the digits, points and underscores after the sign. -/
def scan (r : Reader) : List Char → Except DecimalFault (Nat × Nat)
  | [] => r.finish
  | c :: rest =>
    if r.full then
      if c = '_' && r.wide then scan { r with lookingAhead := true } rest else r.roundOn c rest
    else if c.isDigit then
      let next := 10 * r.mantissa + (c.toNat - '0'.toNat)
      if next < mantissaLimit then
        scan ⟨next, if r.point then r.scale + 1 else 0, r.point, true, false⟩ rest
      else if r.point then r.roundOn c rest
      else .error .tooManyDigits
    else if c = '.' && !r.point then scan { r with point := true } rest
    else if c = '_' && r.digit then scan r rest
    else .error (strayCharacter c)

/-- Reads a decimal without an exponent. Zero loses its sign, and places that an underscore let in
behind the last one are counted modulo one more than the limit. -/
def readPlain (cs : List Char) : Except DecimalFault Decimal := do
  let (negative, digits) := match cs with
    | '-' :: rest => (true, rest)
    | '+' :: rest => (false, rest)
    | rest => (false, rest)
  if cs.isEmpty then throw .empty
  let (mantissa, scale) ← scan ⟨0, 0, false, false, false⟩ digits
  match ofParts? (negative && mantissa != 0) mantissa (scale % (maxScale + 1)) with
  | some d => return d
  | none => throw .tooManyDigits

/-- The decimal with its point moved, if the number of places stays within the limit. -/
def withScale? (d : Decimal) (scale : Nat) : Option Decimal :=
  ofParts? d.negative d.mantissa scale

/-- The decimal with fewer places, rounded half up. -/
def roundToScale (d : Decimal) (scale : Nat) : Option Decimal :=
  if d.scale ≤ scale then withScale? d d.scale
  else ofParts? d.negative (roundDiv .up d.mantissa (Nat.pow 10 (d.scale - scale))) scale

/-- The decimal with the point moved to the left. If there are not enough places, the last digits are
rounded away first. -/
def shiftDown (d : Decimal) (places : Nat) : Except DecimalFault Decimal :=
  if maxScale < places then .error (.exponentTooLarge places)
  else
    let shifted :=
      if d.scale + places ≤ maxScale then d.withScale? (d.scale + places)
      else (d.roundToScale (maxScale - places)).bind (·.withScale? maxScale)
    match shifted with
    | some shifted => .ok shifted
    | none => .error (.exponentTooLarge places)

/-- The largest power of ten that is multiplied with at once. -/
def powerStep : Nat := 19

/-- The decimal with the point moved to the right. Beyond its last place the mantissa grows, and zeros
at the end go. -/
def shiftUp (d : Decimal) (places : Nat) : Except DecimalFault Decimal :=
  if places ≤ d.scale then
    match d.withScale? (d.scale - places) with
    | some shifted => .ok shifted
    | none => .error .tooLarge
  else if maxScale < places then .error (.exponentTooLarge places)
  else
    let grown := do
      let grown ← d.mulNat (Nat.pow 10 (min places powerStep))
      let grown ← if powerStep < places then grown.mulNat (Nat.pow 10 (places - powerStep)) else some grown
      grown.normalize
    match grown with
    | some grown => .ok grown
    | none => .error .tooLarge

/-- Is it the letter before an exponent? -/
def isExponentMark (c : Char) : Bool :=
  c == 'e' || c == 'E'

/-- Reads a decimal with an exponent. The part before the exponent is read first. -/
def readScientific (cs : List Char) : Except DecimalFault Decimal := do
  let base := cs.takeWhile (!isExponentMark ·)
  match cs.dropWhile (!isExponentMark ·) with
  | [] => throw .noExponent
  | _ :: exponent =>
    let d ← readPlain base
    let magnitude (digits : List Char) : Except DecimalFault Nat :=
      (IntKind.u32.readChars digits).map Int.toNat |>.mapError fun _ => .noExponent
    match exponent with
    | '-' :: digits => d.shiftDown (← magnitude digits)
    | digits => d.shiftUp (← magnitude digits)

/-- Reads a decimal, with an exponent if it is none without. -/
def read (text : String) : Except DecimalFault Decimal :=
  match readPlain text.toList with
  | .ok d => .ok d
  | .error _ => readScientific text.toList

end Decimal

end LayeredConfig.Number
