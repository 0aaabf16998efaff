/-!
# Character classes of YAML

Which characters separate words and lines, which may stand in a name, and which may stand in a document
at all.
-/

namespace LayeredConfig.Yaml

/-- The characters that end a line. A carriage return and a line feed together end one line. -/
def isBreak (c : Char) : Bool :=
  c == '\n' || c == '\r' || c == '\u0085' || c == '\u2028' || c == '\u2029'

/-- The characters that separate words in a line. -/
def isBlank (c : Char) : Bool :=
  c == ' ' || c == '\t'

/-- Blanks and line breaks. -/
def isWhite (c : Char) : Bool :=
  isBlank c || isBreak c

/-- Blanks, line breaks, and the end of the text. -/
def isBlankOrEnd : Option Char → Bool
  | none => true
  | some c => isWhite c || c == '\x00'

/-- The break that a line break stands for: a line feed, if it is no separator of its own. -/
def normalBreak (c : Char) : Char :=
  if c == '\r' || c == '\u0085' then '\n' else c

/-- The characters of names: ASCII letters, digits, hyphens and underscores. -/
def isNameChar (c : Char) : Bool :=
  c.isAlphanum || c == '-' || c == '_'

/-- The characters that open and close collections and separate their items. -/
def isFlowMark (c : Char) : Bool :=
  c == ',' || c == '[' || c == ']' || c == '\x7b' || c == '\x7d'

/-- The characters that a document may hold: no controls but tabs and line breaks. -/
def isAllowed (c : Char) : Bool :=
  let n := c.toNat
  n == 0x09 || n == 0x0A || n == 0x0D || (0x20 ≤ n && n ≤ 0x7E) || n == 0x85 ||
    (0xA0 ≤ n && n ≤ 0xD7FF) || (0xE000 ≤ n && n ≤ 0xFFFD) || 0x10000 ≤ n

/-- Does a text start with the mark of the start or of the end of a document? -/
def startsMarker : List Char → Bool
  | '-' :: '-' :: '-' :: rest | '.' :: '.' :: '.' :: rest => isBlankOrEnd rest.head?
  | _ => false

end LayeredConfig.Yaml
