import LayeredConfig.Yaml.Character

/-!
# Words and gaps in scalars

A scalar that goes over several lines is words with gaps between them. A gap inside of a line belongs to
the text. Of a gap with line breaks the blanks are dropped, one line feed becomes a space, and further
breaks stay, so that a text can be broken at its spaces.
-/

namespace LayeredConfig.Yaml

/-- A character of a scalar with its role. -/
inductive Piece where
  /-- A character of a word, or an escaped one. -/
  | char (c : Char)
  | blank (c : Char)
  | lineBreak (c : Char)
  /-- A line break that is escaped, so that the lines are joined without a space. -/
  | joint
deriving DecidableEq, Repr

/-- The blanks and the breaks between two words. -/
structure Gap where
  escaped : Bool
  blanks : List Char
  breaks : List Char

namespace Gap

/-- No gap. -/
def none : Gap := ⟨false, [], []⟩

/-- What a gap stands for in the text. -/
def text (g : Gap) : List Char :=
  match g.escaped, g.breaks with
  | false, [] => g.blanks
  | false, ['\n'] => [' ']
  | false, '\n' :: more => more
  | _, breaks => breaks

end Gap

namespace Piece

/-- Is it part of a word? -/
def isChar : Piece → Bool
  | .char _ => true
  | _ => false

/-- Is it a line break? -/
def isLineBreak : Piece → Bool
  | .lineBreak _ => true
  | _ => false

/-- The text of pieces that follow a gap. -/
def text (gap : Gap) : List Piece → List Char
  | [] => gap.text
  | .char c :: rest => gap.text ++ c :: text .none rest
  | .blank c :: rest => text { gap with blanks := gap.blanks ++ [c] } rest
  | .lineBreak c :: rest => text { gap with breaks := gap.breaks ++ [c] } rest
  | .joint :: rest => gap.text ++ text { Gap.none with escaped := true } rest

/-- The piece in front of those that were read behind it. -/
def before (p : Piece) : List Piece × List Char → List Piece × List Char
  | (pieces, rest) => (p :: pieces, rest)

end Piece

end LayeredConfig.Yaml
