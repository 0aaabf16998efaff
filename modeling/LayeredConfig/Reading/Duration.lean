import LayeredConfig.Number.DecimalText
import LayeredConfig.Text.Blank

/-!
# Durations

A length of time in nanoseconds, of which there are less than 2 ^ 64. It is written as an amount with a
unit (`1.5 s`), or by components as in `P1DT2H3M4.5S`. Amounts are decimals; the sum of all components
is cut to whole nanoseconds at the end, so equal amounts in different units are equal durations.
-/

namespace LayeredConfig

open Number

/-- The first number of nanoseconds that is too large. -/
def nanosecondLimit : Nat := Nat.pow 2 64

/-- A length of time. -/
structure Duration where
  nanoseconds : Nat
  within : nanoseconds < nanosecondLimit
deriving DecidableEq

namespace Duration

/-- The nanoseconds in a second. -/
def second : Nat := 1000000000

/-- The whole seconds. -/
def seconds (d : Duration) : Nat :=
  d.nanoseconds / second

/-- The nanoseconds after the last whole second. -/
def subsecond (d : Duration) : Nat :=
  d.nanoseconds % second

/-- Why a text is no duration. -/
inductive Fault where
  | negative
  | invalid
deriving DecidableEq, Repr

/-- The wording of a fault of `text`. -/
def Fault.message (text : String) : Fault → String
  | .negative => "Negative durations are not supported: " ++ text
  | .invalid => "Could not parse duration value: " ++ text

/-- The nanoseconds in a unit of the short form. -/
def unit? (name : List Char) : Option Nat :=
  if name = ['m', 's'] then some 1000000
  else if name = ['s'] then some second
  else if name = ['m'] then some (60 * second)
  else if name = ['h'] then some (3600 * second)
  else if name = ['d'] then some (86400 * second)
  else none

/-- Takes an amount off the text: digits and, where places are allowed, a point with digits after it.
Without a digit in front there is no amount. -/
def takeAmount (places : Bool) (cs : List Char) : List Char × List Char :=
  let whole := cs.takeWhile Char.isDigit
  let rest := cs.dropWhile Char.isDigit
  match rest with
  | '.' :: more@(c :: _) =>
    if places && c.isDigit && !whole.isEmpty then
      (whole ++ '.' :: more.takeWhile Char.isDigit, more.dropWhile Char.isDigit)
    else (whole, rest)
  | _ => (whole, rest)

/-- The nanoseconds of an amount in a unit. -/
def scaled (amount : List Char) (unit : Nat) : Option Decimal :=
  match Decimal.readPlain amount with
  | .ok d => d.mulNat unit
  | .error _ => none

/-- The duration of so many nanoseconds, cut to whole ones. -/
def ofNanoseconds? (d : Decimal) : Option Duration :=
  if h : d.whole < nanosecondLimit then some ⟨d.whole, h⟩ else none

/-- Reads an amount, spaces and a unit. -/
def readShort? (cs : List Char) : Option Duration := do
  let (amount, rest) := takeAmount true cs
  if amount.isEmpty then none
  else
    let unit ← unit? (rest.dropWhile (· == ' '))
    ofNanoseconds? (← scaled amount unit)

/-- Is `c` the letter, in either case? The long s is a small `s`. -/
def isLetter (letter c : Char) : Bool :=
  c.toUpper == letter || (letter == 'S' && c == 'ſ')

/-- A component that a duration may have: its letter, its unit, and whether its amount may have
places. -/
structure Component where
  letter : Char
  unit : Nat
  places : Bool

/-- Takes a component off the text, if its amount and its letter are there. -/
def Component.take? (component : Component) (cs : List Char) : Option (List Char × List Char) :=
  let (amount, rest) := takeAmount component.places cs
  if amount.isEmpty then none
  else match rest with
    | c :: rest => if isLetter component.letter c then some (amount, rest) else none
    | [] => none

/-- Takes those of the components off the text that are there, in their order. The amounts come with
their units. -/
def takeComponents : List Component → List Char → List (List Char × Nat) × List Char
  | [], cs => ([], cs)
  | component :: more, cs =>
    match component.take? cs with
    | some (amount, rest) =>
      let (amounts, rest) := takeComponents more rest
      ((amount, component.unit) :: amounts, rest)
    | none => takeComponents more cs

/-- The components before the time mark. -/
def dateComponents : List Component :=
  [⟨'D', 86400 * second, false⟩]

/-- The components after the time mark. -/
def timeComponents : List Component :=
  [⟨'H', 3600 * second, false⟩, ⟨'M', 60 * second, false⟩, ⟨'S', second, true⟩]

/-- The amounts of a duration by components, with their units. There has to be one; the time mark may
stand without any after it. -/
def components? (cs : List Char) : Option (List (List Char × Nat)) :=
  match cs with
  | [] => none
  | p :: cs =>
    if !isLetter 'P' p then none
    else
      let (days, rest) := takeComponents dateComponents cs
      let (times, rest) := match rest with
        | t :: rest' => if isLetter 'T' t then takeComponents timeComponents rest' else ([], rest)
        | [] => ([], [])
      if rest.isEmpty && !(days ++ times).isEmpty then some (days ++ times) else none

/-- Reads a duration by components. -/
def readComponents? (cs : List Char) : Option Duration := do
  let amounts ← components? cs
  let parts ← amounts.mapM fun (amount, unit) => scaled amount unit
  let total ← parts.foldlM Decimal.addMagnitudes Decimal.zero
  ofNanoseconds? total

/-- Reads a duration in either form. -/
def read (text : String) : Except Fault Duration :=
  let cs := Text.trim text.toList
  if cs.head? = some '-' then .error .negative
  else match readShort? cs with
    | some d => .ok d
    | none =>
      match readComponents? cs with
      | some d => .ok d
      | none => .error .invalid

end Duration

end LayeredConfig
