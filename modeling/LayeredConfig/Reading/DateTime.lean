/-!
# Dates with a time of day

A moment on the calendar with its offset from universal time, read from and written in the form
`2024-03-01T10:00:00.5+01:00`. A second may be the sixtieth; it is kept as such.
-/

namespace LayeredConfig

/-- A day of the proleptic Gregorian calendar, a time of day and an offset in minutes. -/
structure DateTime where
  year : Int
  month : Nat
  day : Nat
  hour : Nat
  minute : Nat
  second : Nat
  nanosecond : Nat
  offset : Int
deriving DecidableEq, Repr

namespace DateTime

/-- Why a text is no date. -/
inductive Fault where
  | tooShort
  | invalid
  | outOfRange
  | tooLong
deriving DecidableEq, Repr

/-- The wording of a fault. -/
def Fault.message : Fault → String
  | .tooShort => "premature end of input"
  | .invalid => "input contains invalid characters"
  | .outOfRange => "input is out of range"
  | .tooLong => "trailing input"

/-- Has the year a leap day? -/
def isLeapYear (year : Int) : Bool :=
  year % 4 == 0 && (year % 100 != 0 || year % 400 == 0)

/-- The number of days in a month. -/
def daysInMonth (year : Int) (month : Nat) : Nat :=
  if month = 2 then (if isLeapYear year then 29 else 28)
  else if month = 4 || month = 6 || month = 9 || month = 11 then 30
  else 31

/-- Is there such a day? -/
def isDay (year : Int) (month day : Nat) : Bool :=
  1 ≤ month && month ≤ 12 && 1 ≤ day && day ≤ daysInMonth year month

/-- The day before the given one. -/
def previousDay (year : Int) (month day : Nat) : Int × Nat × Nat :=
  if 1 < day then (year, month, day - 1)
  else if 1 < month then (year, month - 1, daysInMonth year (month - 1))
  else (year - 1, 12, 31)

/-- The day after the given one. -/
def nextDay (year : Int) (month day : Nat) : Int × Nat × Nat :=
  if day < daysInMonth year month then (year, month, day + 1)
  else if month < 12 then (year, month + 1, 1)
  else (year + 1, 1, 1)

/-- The minutes in a day. -/
def minutesInDay : Int := 1440

/-- The same moment in universal time. Offsets are less than a day, so the day changes by one at
most. -/
def toUniversal (d : DateTime) : DateTime :=
  let minutes : Int := 60 * d.hour + d.minute - d.offset
  let (year, month, day) :=
    if minutes < 0 then previousDay d.year d.month d.day
    else if minutesInDay ≤ minutes then nextDay d.year d.month d.day
    else (d.year, d.month, d.day)
  let time := (minutes % minutesInDay).toNat
  { d with year, month, day, hour := time / 60, minute := time % 60, offset := 0 }

/-! ## Reading -/

/-- What may stand at one place of the fixed part. -/
inductive Slot where
  | digit
  | mark (c : Char)
  | separator

/-- Does the character fit the place? -/
def Slot.fits (c : Char) : Slot → Bool
  | .digit => c.isDigit
  | .mark m => c == m
  | .separator => c == 'T' || c == 't' || c == ' '

/-- Two digits. -/
def twoDigits : List Slot := [.digit, .digit]

/-- The day. -/
def datePart : List Slot :=
  twoDigits ++ twoDigits ++ [.mark '-'] ++ twoDigits ++ [.mark '-'] ++ twoDigits

/-- What separates the day from the time, and the time down to the second. -/
def timePart : List Slot :=
  [.separator] ++ twoDigits ++ [.mark ':'] ++ twoDigits ++ [.mark ':'] ++ twoDigits

/-- Does the text begin as the places say? -/
def fitsAll (slots : List Slot) (cs : List Char) : Bool :=
  slots.length ≤ cs.length && (cs.zip slots).all fun (c, slot) => slot.fits c

/-- The number written at the given places. -/
def numberAt (cs : List Char) (start length : Nat) : Nat :=
  Nat.ofDigitChars 10 ((cs.drop start).take length) 0

/-- Digits of a fraction that count. -/
def fractionDigits : Nat := 9

/-- Reads the fraction of a second, if there is one, as nanoseconds. -/
def readFraction : List Char → Except Fault (Nat × List Char)
  | '.' :: rest =>
    match rest with
    | [] => .error .tooShort
    | c :: _ =>
      if !c.isDigit then .error .invalid
      else
        let digits := (rest.takeWhile Char.isDigit).take fractionDigits
        .ok (Nat.ofDigitChars 10 digits 0 * Nat.pow 10 (fractionDigits - digits.length),
          rest.dropWhile Char.isDigit)
  | rest => .ok (0, rest)

/-- Reads two digits. A text of less than two bytes is too short for them. -/
def readTwo : List Char → Except Fault (Nat × List Char)
  | c :: d :: rest =>
    if c.isDigit && d.isDigit then .ok (Nat.ofDigitChars 10 [c, d] 0, rest) else .error .invalid
  | [c] => if c.utf8Size < 2 then .error .tooShort else .error .invalid
  | [] => .error .tooShort

/-- Reads a colon. -/
def readColon : List Char → Except Fault (List Char)
  | [] => .error .tooShort
  | c :: rest => if c == ':' then .ok rest else .error .invalid

/-- Reads an offset in minutes: none for universal time, or a sign, hours and minutes. -/
def readOffset : List Char → Except Fault (Int × List Char)
  | [] => .error .tooShort
  | c :: rest =>
    if c == 'Z' || c == 'z' then .ok (0, rest)
    else if c == '+' || c == '-' || c == '\u2212' then do
      let (hours, rest) ← readTwo rest
      let rest ← readColon rest
      let (minutes, rest) ← readTwo rest
      if 60 ≤ minutes then throw .outOfRange
      let offset : Int := 60 * hours + minutes
      return (if c == '+' then offset else -offset, rest)
    else .error .invalid

/-- Reads a date with time and offset, from left to right. The day is checked before the time is read,
and the time after its fraction. -/
def readChars (cs : List Char) : Except Fault DateTime := do
  if (String.ofList cs).utf8ByteSize < datePart.length + timePart.length then throw .tooShort
  if !fitsAll datePart cs then throw .invalid
  let year : Int := numberAt cs 0 4
  let month := numberAt cs 5 2
  let day := numberAt cs 8 2
  if !isDay year month day then throw .outOfRange
  if !fitsAll timePart (cs.drop datePart.length) then throw .invalid
  let (nanosecond, rest) ← readFraction (cs.drop (datePart.length + timePart.length))
  let hour := numberAt cs 11 2
  let minute := numberAt cs 14 2
  let second := numberAt cs 17 2
  if 24 ≤ hour || 60 ≤ minute || 60 < second then throw .outOfRange
  let (offset, rest) ← readOffset rest
  if !rest.isEmpty then throw .tooLong
  if minutesInDay ≤ offset || offset ≤ -minutesInDay then throw .outOfRange
  return { year, month, day, hour, minute, second, nanosecond, offset }

/-- Reads the text of a date. -/
def read (text : String) : Except Fault DateTime :=
  readChars text.toList

/-! ## Writing -/

/-- A number with zeros in front up to the given width. -/
def padded (width n : Nat) : String :=
  let digits := Nat.toDigits 10 n
  String.ofList (List.replicate (width - digits.length) '0' ++ digits)

/-- A year in four digits. Years that need more, and years before the first, have a sign. -/
def yearText (year : Int) : String :=
  if 0 ≤ year && year ≤ 9999 then padded 4 year.toNat
  else (if year < 0 then "-" else "+") ++ padded 4 year.natAbs

/-- The fraction of a second in three, six or nine digits, or nothing for a whole second. -/
def fractionText (nanosecond : Nat) : String :=
  if nanosecond = 0 then ""
  else if nanosecond % 1000000 = 0 then "." ++ padded 3 (nanosecond / 1000000)
  else if nanosecond % 1000 = 0 then "." ++ padded 6 (nanosecond / 1000)
  else "." ++ padded 9 nanosecond

/-- An offset as sign, hours and minutes. -/
def offsetText (offset : Int) : String :=
  (if offset < 0 then "-" else "+") ++ padded 2 (offset.natAbs / 60) ++ ":" ++
    padded 2 (offset.natAbs % 60)

/-- The text of a date. -/
def display (d : DateTime) : String :=
  yearText d.year ++ "-" ++ padded 2 d.month ++ "-" ++ padded 2 d.day ++ "T" ++
    padded 2 d.hour ++ ":" ++ padded 2 d.minute ++ ":" ++ padded 2 d.second ++
    fractionText d.nanosecond ++ offsetText d.offset

end DateTime

end LayeredConfig
