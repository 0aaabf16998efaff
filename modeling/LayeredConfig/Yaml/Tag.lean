import LayeredConfig.Yaml.Character
import LayeredConfig.Yaml.Plain
import LayeredConfig.Yaml.Token

/-!
# Reading tags and directives

A tag has a handle, which directives of the document explain, and a suffix in the characters of
addresses, where others can be written as escapes.
-/

namespace LayeredConfig.Yaml

/-- The characters of tags. Those that have a meaning between brackets count only if the tag itself is
in brackets. -/
def isTagChar (verbatim : Bool) (c : Char) : Bool :=
  isNameChar c || ";/?:@&=+$.!~*'()".toList.contains c ||
    (verbatim && (c == ',' || c == '[' || c == ']'))

/-- The number of bytes that follow the first byte of a character, with the part of the code that the
first byte holds. -/
def leadingByte? (byte : Nat) : Option (Nat × Nat) :=
  if byte < 0x80 then some (0, byte)
  else if byte < 0xC0 then none
  else if byte < 0xE0 then some (1, byte % 0x20)
  else if byte < 0xF0 then some (2, byte % 0x10)
  else if byte < 0xF8 then some (3, byte % 0x08)
  else none

/-- Reads the characters of a tag. Of a character written as bytes, `left` bytes are still to come, and
the bytes read so far make up `code`. -/
def readTagChars (verbatim : Bool) (left code : Nat) :
    List Char → Option (List Char × List Char)
  | '%' :: a :: b :: rest => do
    let byte := 16 * (← digitValue? 16 a) + (← digitValue? 16 b)
    let (left, code) ←
      if left = 0 then leadingByte? byte
      else if byte / 0x40 = 2 then some (left - 1, 0x40 * code + byte % 0x40)
      else none
    let (text, rest) ← readTagChars verbatim left code rest
    return (if left = 0 then Char.ofNat code :: text else text, rest)
  | c :: rest =>
    if left ≠ 0 || c == '%' then none
    else if isTagChar verbatim c then
      (readTagChars verbatim 0 0 rest).map fun (text, rest) => (c :: text, rest)
    else some ([], c :: rest)
  | [] => if left = 0 then some ([], []) else none

/-- Reads one or more characters of a tag. -/
def readTagText (verbatim : Bool) (cs : List Char) : Option (String × List Char) := do
  let (text, rest) ← readTagChars verbatim 0 0 cs
  if text.isEmpty then none else return (String.ofList text, rest)

/-- Takes an exclamation mark off and what may be a name between it and another one. The second part of
the result says whether there is another one. -/
def readHandle : List Char → Option (List Char × Bool × List Char)
  | '!' :: rest =>
    let name := rest.takeWhile isNameChar
    match rest.dropWhile isNameChar with
    | '!' :: rest => some ('!' :: name ++ ['!'], true, rest)
    | rest => some ('!' :: name, false, rest)
  | _ => none

/-- Reads a tag: an address in angle brackets, or a suffix with or without a handle. A lone mark is a tag
without a handle. -/
def readTag (flow : Bool) (cs : List Char) : Option (Token × List Char) := do
  let (handle, suffix, rest) ← match cs with
    | '!' :: '<' :: rest =>
      let (text, rest) ← readTagText true rest
      match rest with
      | '>' :: rest => some ("", text, rest)
      | _ => none
    | cs =>
      let (handle, closed, rest) ← readHandle cs
      if closed then
        let (text, rest) ← readTagText false rest
        some (String.ofList handle, text, rest)
      else
        let (text, rest) ← readTagChars false 0 0 rest
        let suffix := String.ofList (handle.tail ++ text)
        some (if suffix.isEmpty then ("", "!", rest) else ("!", suffix, rest))
  if isBlankOrEnd rest.head? || (flow && rest.head? == some ',') then
    return (.tag handle suffix, rest)
  else none

/-- Reads a number of a version. -/
def readVersionNumber (cs : List Char) : Option (Nat × List Char) :=
  let digits := cs.takeWhile Char.isDigit
  if digits.length ≤ 9 then (inBase? 10 digits).map fun n => (n, cs.dropWhile Char.isDigit)
  else none

/-- Reads a directive behind its mark, up to the rest of its line. -/
def readDirective (cs : List Char) : Option (Token × List Char) := do
  let name := String.ofList (cs.takeWhile isNameChar)
  let rest := cs.dropWhile isNameChar
  let arguments := rest.dropWhile isBlank
  if !isBlankOrEnd rest.head? then none
  else if name = "YAML" then
    let (major, rest) ← readVersionNumber arguments
    match rest with
    | '.' :: rest =>
      let (minor, rest) ← readVersionNumber rest
      return (.version major minor, rest)
    | _ => none
  else if name = "TAG" then
    let (handle, closed, rest) ← readHandle arguments
    if !(closed || handle = ['!']) || !rest.head?.any isBlank then none
    else
      let (start, rest) ← readTagText true (rest.dropWhile isBlank)
      if isBlankOrEnd rest.head? then return (.tagRule (String.ofList handle) start, rest) else none
  else none

end LayeredConfig.Yaml
