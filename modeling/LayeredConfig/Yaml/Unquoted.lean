import LayeredConfig.Yaml.Piece

/-!
# Reading scalars without quotes

A scalar without quotes ends before a colon with white space behind it and before a comment; between
brackets also before commas and brackets. It goes on in the next line as long as the lines are
indented.
-/

namespace LayeredConfig.Yaml

/-- Where a scalar without quotes stands. -/
structure Surroundings where
  /-- Is it between brackets? -/
  flow : Bool
  /-- The column at which its further lines may start, if it is not between brackets. -/
  indent : Nat

/-- Does the character end the scalar, given what follows it? -/
def endsScalar (flow : Bool) (c : Char) (rest : List Char) : Bool :=
  (c == ':' && isBlankOrEnd rest.head?) || (flow && isFlowMark c)

/-- Reads pieces up to the end of a scalar, from a place at `column`. The gap in front of the place, if
there is one, is `inGap` and has a line break if it is `broken`. -/
def readUnquoted (s : Surroundings) (column : Nat) (inGap broken : Bool) :
    List Char → Option (List Piece × List Char)
  | [] => some ([], [])
  | '\r' :: '\n' :: rest =>
    (readUnquoted s 0 true true rest).map (Piece.before (.lineBreak '\n'))
  | c :: rest =>
    if isBreak c then
      (readUnquoted s 0 true true rest).map (Piece.before (.lineBreak (normalBreak c)))
    else if isBlank c then
      if broken && c == '\t' && column < s.indent then none
      else (readUnquoted s (column + 1) true broken rest).map (Piece.before (.blank c))
    else if inGap && ((!s.flow && column < s.indent) || c == '#' ||
        (column == 0 && startsMarker (c :: rest))) then some ([], c :: rest)
    else if s.flow && c == ':' && rest.head?.any (fun d => isFlowMark d || d == '?') then none
    else if endsScalar s.flow c rest then some ([], c :: rest)
    else (readUnquoted s (column + 1) false false rest).map (Piece.before (.char c))

/-- A scalar without quotes: its text, whether line breaks follow it, and what comes behind these. -/
structure Unquoted where
  text : List Char
  broken : Bool
  rest : List Char

/-- Reads a scalar without quotes. The gap behind it does not belong to the text. -/
def readPlain (s : Surroundings) (column : Nat) (cs : List Char) : Option Unquoted :=
  (readUnquoted s column false false cs).map fun (pieces, rest) =>
    let backwards := pieces.reverse
    { text := Piece.text .none (backwards.dropWhile (!·.isChar)).reverse
      broken := (backwards.takeWhile (!·.isChar)).any Piece.isLineBreak
      rest }

end LayeredConfig.Yaml
