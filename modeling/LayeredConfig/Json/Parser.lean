import LayeredConfig.Json
import LayeredConfig.Json.Number

/-!
# Reading JSON documents

A strict reader: one value with nothing but white space around it, no superfluous commas or zeros, and
containers nested at most 127 deep. `Json.toValue?` turns the tree into a value; a key that repeats
keeps its first place and its last value.
-/

namespace LayeredConfig.Json

/-- White space between tokens. -/
def isSpace (c : Char) : Bool :=
  c == ' ' || c == '\t' || c == '\n' || c == '\r'

/-- Drops white space. -/
def skipSpace (cs : List Char) : List Char :=
  cs.dropWhile isSpace

/-- The value of a hexadecimal digit. -/
def hexDigit? (c : Char) : Option Nat :=
  if c.isDigit then some (c.toNat - '0'.toNat)
  else if 'a' ≤ c.toLower && c.toLower ≤ 'f' then some (c.toLower.toNat - 'a'.toNat + 10)
  else none

/-- The value of hexadecimal digits. -/
def hexValue? (digits : List Char) : Option Nat :=
  digits.foldlM (fun n c => (hexDigit? c).map (16 * n + ·)) 0

/-- The character of a simple escape. -/
def unescape? (c : Char) : Option Char :=
  match c with
  | '"' => some '"'
  | '\\' => some '\\'
  | '/' => some '/'
  | 'b' => some '\x08'
  | 'f' => some '\x0c'
  | 'n' => some '\n'
  | 'r' => some '\r'
  | 't' => some '\t'
  | _ => none

/-- Is the code unit the first or the second half of a pair? -/
def isHighHalf (unit : Nat) : Bool := 0xD800 ≤ unit && unit < 0xDC00

/-- Is the code unit the second half of a pair? -/
def isLowHalf (unit : Nat) : Bool := 0xDC00 ≤ unit && unit < 0xE000

/-- The character of two halves. -/
def ofHalves (high low : Nat) : Char :=
  Char.ofNat (0x10000 + (high - 0xD800) * 0x400 + (low - 0xDC00))

/-- Reads a string behind its opening quote. A code unit that is half of a pair has to come with the
other half. -/
def readString? : List Char → Option (List Char × List Char)
  | [] => none
  | '"' :: rest => some ([], rest)
  | '\\' :: 'u' :: a :: b :: c :: d :: rest => do
    let unit ← hexValue? [a, b, c, d]
    if isLowHalf unit then none
    else if isHighHalf unit then
      match rest with
      | '\\' :: 'u' :: a :: b :: c :: d :: rest =>
        let low ← hexValue? [a, b, c, d]
        if isLowHalf low then
          let (text, rest) ← readString? rest
          return (ofHalves unit low :: text, rest)
        else none
      | _ => none
    else
      let (text, rest) ← readString? rest
      return (Char.ofNat unit :: text, rest)
  | '\\' :: c :: rest => do
    let c ← unescape? c
    let (text, rest) ← readString? rest
    return (c :: text, rest)
  | c :: rest =>
    if c.toNat < 0x20 then none
    else do
      let (text, rest) ← readString? rest
      return (c :: text, rest)

/-- Takes one or more digits off. -/
def takeDigits? (cs : List Char) : Option (List Char × List Char) :=
  let digits := cs.takeWhile Char.isDigit
  if digits.isEmpty then none else some (digits, cs.dropWhile Char.isDigit)

/-- Takes the digits before the point off: a zero alone, or digits that do not start with zero. -/
def takeWhole? (cs : List Char) : Option (List Char × List Char) := do
  let (digits, rest) ← takeDigits? cs
  if digits.head? = some '0' && digits.length ≠ 1 then none else some (digits, rest)

/-- Takes a point with digits after it off, if there is a point. -/
def takeFraction? : List Char → Option (List Char × List Char)
  | '.' :: rest => do
    let (digits, rest) ← takeDigits? rest
    return ('.' :: digits, rest)
  | rest => some ([], rest)

/-- Takes an exponent off, if there is one. -/
def takeExponent? : List Char → Option (List Char × List Char)
  | c :: rest =>
    if c == 'e' || c == 'E' then do
      let (sign, rest) := match rest with
        | '+' :: rest => (['+'], rest)
        | '-' :: rest => (['-'], rest)
        | rest => ([], rest)
      let (digits, rest) ← takeDigits? rest
      return (c :: sign ++ digits, rest)
    else some ([], c :: rest)
  | [] => some ([], [])

/-- Reads a number. -/
def readNumber? (cs : List Char) : Option (Json × List Char) := do
  let (sign, rest) := match cs with
    | '-' :: rest => (['-'], rest)
    | rest => ([], rest)
  let (whole, rest) ← takeWhole? rest
  let (fraction, rest) ← takeFraction? rest
  let (exponent, rest) ← takeExponent? rest
  return (.number (String.ofList (sign ++ whole ++ fraction ++ exponent)), rest)

/-- How deep containers may be nested. -/
def maxDepth : Nat := 127

mutual

/-- Reads a value, inside of which `depth` more containers may be nested. -/
def readValue? (fuel depth : Nat) (cs : List Char) : Option (Json × List Char) :=
  match fuel with
  | 0 => none
  | fuel + 1 =>
    match skipSpace cs with
    | 'n' :: 'u' :: 'l' :: 'l' :: rest => some (.null, rest)
    | 't' :: 'r' :: 'u' :: 'e' :: rest => some (.bool true, rest)
    | 'f' :: 'a' :: 'l' :: 's' :: 'e' :: rest => some (.bool false, rest)
    | '"' :: rest => (readString? rest).map fun (text, rest) => (.string (String.ofList text), rest)
    | '[' :: rest =>
      match depth with
      | 0 => none
      | depth + 1 =>
        match skipSpace rest with
        | ']' :: rest => some (.array [], rest)
        | rest => (readItems? fuel depth rest).map fun (items, rest) => (.array items, rest)
    | '{' :: rest =>
      match depth with
      | 0 => none
      | depth + 1 =>
        match skipSpace rest with
        | '}' :: rest => some (.object [], rest)
        | rest => (readEntries? fuel depth rest).map fun (entries, rest) => (.object entries, rest)
    | cs => readNumber? cs

/-- Reads the items of an array up to its end. -/
def readItems? (fuel depth : Nat) (cs : List Char) : Option (List Json × List Char) :=
  match fuel with
  | 0 => none
  | fuel + 1 => do
    let (item, rest) ← readValue? fuel depth cs
    match skipSpace rest with
    | ',' :: rest =>
      let (items, rest) ← readItems? fuel depth rest
      return (item :: items, rest)
    | ']' :: rest => return ([item], rest)
    | _ => none

/-- Reads the entries of an object up to its end. -/
def readEntries? (fuel depth : Nat) (cs : List Char) : Option (List (String × Json) × List Char) :=
  match fuel with
  | 0 => none
  | fuel + 1 =>
    match skipSpace cs with
    | '"' :: rest => do
      let (key, rest) ← readString? rest
      match skipSpace rest with
      | ':' :: rest =>
        let (value, rest) ← readValue? fuel depth rest
        let entry := (String.ofList key, value)
        match skipSpace rest with
        | ',' :: rest =>
          let (entries, rest) ← readEntries? fuel depth rest
          return (entry :: entries, rest)
        | '}' :: rest => return ([entry], rest)
        | _ => none
      | _ => none
    | _ => none

end

/-- Reads a document. Each step of the readers takes a character or hands on to one that does, so twice
the length of the text bounds their number. -/
def parse? (text : String) : Option Json := do
  let cs := text.toList
  let (j, rest) ← readValue? (2 * cs.length + 2) maxDepth cs
  if (skipSpace rest).isEmpty then some j else none

mutual

/-- The value that a document stands for. There is none if a number is too large. -/
def toValue? : Json → Option Value
  | .null => some .null
  | .bool b => some (Value.literal (.bool b))
  | .number text => (numberLiteral? text).map .literal
  | .string s => some (.string s)
  | .array items => (itemsToValue? items).map .sequence
  | .object entries => (entriesToValue? entries).map fun es => .mapping (Entries.ofList es)

/-- The values of the items of an array. -/
def itemsToValue? : List Json → Option (List Value)
  | [] => some []
  | item :: rest => do
    let v ← toValue? item
    let vs ← itemsToValue? rest
    return v :: vs

/-- The values of the entries of an object. -/
def entriesToValue? : List (String × Json) → Option (List (String × Value))
  | [] => some []
  | (k, j) :: rest => do
    let v ← toValue? j
    let vs ← entriesToValue? rest
    return (k, v) :: vs

end

end LayeredConfig.Json
