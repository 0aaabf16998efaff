import LayeredConfig.Yaml.Piece
import LayeredConfig.Yaml.Plain

/-!
# Reading scalars in quotes

Between single quotes only the quote is special: two of them stand for one. Between double quotes a
backslash starts an escape. Line breaks are folded in both, and a line that looks like the start or the
end of a document is refused.
-/

namespace LayeredConfig.Yaml

/-- Goes on behind a line break, if no marker follows. -/
def afterBreak (c : Char) (rest : List Char)
    (more? : Option (List Piece × List Char)) : Option (List Piece × List Char) :=
  if startsMarker rest then none else more?.map (Piece.before (.lineBreak (normalBreak c)))

/-- Reads behind an opening single quote up to the closing one. -/
def readSingleQuoted : List Char → Option (List Piece × List Char)
  | [] => none
  | '\'' :: '\'' :: rest => (readSingleQuoted rest).map (Piece.before (.char '\''))
  | '\'' :: rest => some ([], rest)
  | '\r' :: '\n' :: rest => afterBreak '\n' rest (readSingleQuoted rest)
  | c :: rest =>
    if isBreak c then afterBreak c rest (readSingleQuoted rest)
    else (readSingleQuoted rest).map (Piece.before (if isBlank c then .blank c else .char c))

/-- Where in an escape a character stands. -/
inductive EscapeState where
  /-- Outside of escapes. -/
  | text
  /-- Right behind the backslash. -/
  | start
  /-- Before as many hexadecimal digits, behind digits with the given value. -/
  | digits (left value : Nat)

/-- The character of an escape of one letter. -/
def escaped? (letter : Char) : Option Char :=
  match letter with
  | '0' => some '\x00' | 'a' => some '\x07' | 'b' => some '\x08' | 't' => some '\t'
  | '\t' => some '\t' | 'n' => some '\n' | 'v' => some '\x0b' | 'f' => some '\x0c'
  | 'r' => some '\r' | 'e' => some '\x1b' | ' ' => some ' ' | '"' => some '"' | '/' => some '/'
  | '\\' => some '\\' | 'N' => some '\u0085' | '_' => some '\u00a0' | 'L' => some '\u2028'
  | 'P' => some '\u2029'
  | _ => none

/-- The number of digits behind the letter of an escape. -/
def digitCount? (letter : Char) : Option Nat :=
  match letter with
  | 'x' => some 2
  | 'u' => some 4
  | 'U' => some 8
  | _ => none

/-- The character with a code, if the code is one of a character. -/
def charOf? (code : Nat) : Option Char :=
  if code.isValidChar then some (Char.ofNat code) else none

/-- Reads behind an opening double quote up to the closing one. -/
def readDoubleQuoted : EscapeState → List Char → Option (List Piece × List Char)
  | _, [] => none
  | .digits left value, c :: rest =>
    match digitValue? 16 c, left with
    | some digit, left + 2 => readDoubleQuoted (.digits (left + 1) (16 * value + digit)) rest
    | some digit, _ =>
      (charOf? (16 * value + digit)).bind fun c =>
        (readDoubleQuoted .text rest).map (Piece.before (.char c))
    | none, _ => none
  | .start, '\r' :: '\n' :: rest =>
    if startsMarker rest then none else (readDoubleQuoted .text rest).map (Piece.before .joint)
  | .start, c :: rest =>
    if isBreak c then
      if startsMarker rest then none else (readDoubleQuoted .text rest).map (Piece.before .joint)
    else
      match digitCount? c with
      | some count => readDoubleQuoted (.digits count 0) rest
      | none => (escaped? c).bind fun c =>
          (readDoubleQuoted .text rest).map (Piece.before (.char c))
  | .text, '"' :: rest => some ([], rest)
  | .text, '\\' :: rest => readDoubleQuoted .start rest
  | .text, '\r' :: '\n' :: rest => afterBreak '\n' rest (readDoubleQuoted .text rest)
  | .text, c :: rest =>
    if isBreak c then afterBreak c rest (readDoubleQuoted .text rest)
    else (readDoubleQuoted .text rest).map (Piece.before (if isBlank c then .blank c else .char c))

/-- Reads a scalar behind its opening quote. -/
def readQuoted (double : Bool) (cs : List Char) : Option (List Char × List Char) :=
  (if double then readDoubleQuoted .text cs else readSingleQuoted cs).map fun (pieces, rest) =>
    (Piece.text .none pieces, rest)

end LayeredConfig.Yaml
