import LayeredConfig.Node
import LayeredConfig.Yaml.Character
import LayeredConfig.Yaml.Plain

/-!
# Writing YAML documents

A tree is written in block style, two spaces for each level; a list below a key is not indented, and
empty containers are written in brackets. A string is written without quotes where that is possible and
reads back as the same string. Otherwise it stands in single quotes, in double quotes if it holds
characters that need an escape, and as a block of lines if it has line breaks.
-/

namespace LayeredConfig.Yaml

/-! ## Strings -/

/-- How a string is written. -/
inductive Style where
  | plain
  | singleQuoted
  | doubleQuoted
  | literal
deriving DecidableEq, Repr

/-- Is the character written as it is? Controls, the byte order mark and the last two characters of the
basic plane are not. -/
def isPrintable (c : Char) : Bool :=
  let n := c.toNat
  n == 0xA || (0x20 ≤ n && n ≤ 0x7E) || (0xA0 ≤ n && n ≤ 0xD7FF) ||
    (0xE000 ≤ n && n ≤ 0xFFFD && n != 0xFEFF) || 0x10000 ≤ n

/-- The characters that mean something at the start of a plain scalar. -/
def isIndicator (c : Char) : Bool :=
  "#,[]\x7b\x7d&*!|>'\"%@`".toList.contains c

/-- Does the text mean something else if it is written without quotes, looking at each character with
its neighbours? -/
def hasIndicator (before : Option Char) : List Char → Bool
  | [] => false
  | c :: rest =>
    (match before with
      | none => isIndicator c || ((c == '?' || c == ':' || c == '-') && isBlankOrEnd rest.head?)
      | some b => (c == ':' && isBlankOrEnd rest.head?) || (c == '#' && isBlankOrEnd (some b))) ||
    hasIndicator (some c) rest

/-- Does some character for which `p` holds stand right before one for which `q` holds? -/
def follows (p q : Char → Bool) (cs : List Char) : Bool :=
  (cs.zip cs.tail).any fun (c, d) => p c && q d

/-- What the characters of a string allow. -/
structure Shape where
  hasBreaks : Bool
  plain : Bool
  singleQuoted : Bool
  literal : Bool

/-- Is it a space? -/
def isSpace (c : Char) : Bool := c == ' '

/-- What the characters of a string allow. -/
def shape (cs : List Char) : Shape :=
  let hasBreaks := cs.any isBreak
  let special := cs.any (!isPrintable ·)
  let edge (c? : Option Char) : Bool := c?.any fun c => isSpace c || isBreak c
  let spaceBreak := follows isSpace isBreak cs
  let breakSpace := follows isBreak isSpace cs
  let unquotable := spaceBreak || special
  let marks := hasIndicator none cs ||
    "---".toList.isPrefixOf cs || "...".toList.isPrefixOf cs
  { hasBreaks
    plain := !cs.isEmpty && !edge cs.head? && !edge cs.getLast? && !breakSpace && !unquotable &&
      !hasBreaks && !marks
    singleQuoted := !breakSpace && !unquotable
    literal := !cs.isEmpty && !cs.getLast?.any isSpace && !spaceBreak && !special }

/-- The style of a string, given what its characters allow. Digits behind a zero are quoted, because some
readers take them for a number. A key on one line is no literal. -/
def style (onKeyLine : Bool) (text : String) : Style :=
  let s := shape text.toList
  let wanted : Style :=
    if text.toList.contains '\n' then .literal
    else if Yaml.plain text ≠ .string || hasLeadingZero text.toList then .singleQuoted
    else .plain
  let quoted : Style := if s.singleQuoted then .singleQuoted else .doubleQuoted
  match wanted with
  | .literal => if s.literal && !onKeyLine then .literal else .doubleQuoted
  | .plain => if s.plain then .plain else quoted
  | _ => quoted

/-- Spaces at the start of a line. -/
def indentation (indent : Nat) : List Char :=
  List.replicate indent ' '

/-- Lines of text, each indented after a break. An empty end of the text is no line, unless something
`follows` it. -/
def indentedAfter (indent : Nat) (follows afterBreak : Bool) : List Char → List Char
  | [] => if afterBreak && follows then indentation indent else []
  | c :: rest =>
    if isBreak c then c :: indentedAfter indent follows true rest
    else
      (if afterBreak then indentation indent else []) ++ c :: indentedAfter indent follows false rest

/-- A text in single quotes, with the quotes in it doubled. -/
def singleQuote (indent : Nat) (cs : List Char) : List Char :=
  let doubled := cs.flatMap fun c => if c = '\'' then [c, c] else [c]
  '\'' :: (indentedAfter indent true false doubled ++ ['\''])

/-- A number with the given count of hexadecimal digits. -/
def hex (width n : Nat) : List Char :=
  let digits := (Nat.toDigits 16 n).map Char.toUpper
  List.replicate (width - digits.length) '0' ++ digits

/-- The letter of a simple escape. -/
def escapeLetter? (c : Char) : Option Char :=
  match c.toNat with
  | 0x00 => some '0' | 0x07 => some 'a' | 0x08 => some 'b' | 0x09 => some 't' | 0x0A => some 'n'
  | 0x0B => some 'v' | 0x0C => some 'f' | 0x0D => some 'r' | 0x1B => some 'e' | 0x22 => some '"'
  | 0x5C => some '\\' | 0x85 => some 'N' | 0x2028 => some 'L' | 0x2029 => some 'P'
  | _ => none

/-- A character in double quotes. -/
def doubleQuotedChar (c : Char) : List Char :=
  match escapeLetter? c with
  | some letter => ['\\', letter]
  | none =>
    if isPrintable c then [c]
    else if c.toNat ≤ 0xFF then '\\' :: 'x' :: hex 2 c.toNat
    else '\\' :: 'u' :: hex 4 c.toNat

/-- A text in double quotes. -/
def doubleQuote (cs : List Char) : List Char :=
  '"' :: (cs.flatMap doubleQuotedChar ++ ['"'])

/-- What a block of lines says about the breaks at its end: none, one, or all of them belong to the
text. -/
def chomping (cs : List Char) : List Char :=
  match cs.reverse with
  | [] => ['-']
  | c :: rest =>
    if !isBreak c then ['-']
    else match rest with
      | [] => ['+']
      | d :: _ => if isBreak d then ['+'] else []

/-- A text as a block of lines. -/
def literalBlock (indent : Nat) (cs : List Char) : List Char :=
  let hint := if cs.head?.any fun c => isSpace c || isBreak c then ['2'] else []
  '|' :: hint ++ chomping cs ++ '\n' :: indentedAfter indent false true cs

/-- A string whose lines start after `indent` spaces. -/
def writeString (indent : Nat) (onKeyLine : Bool) (text : String) : List Char :=
  let cs := text.toList
  match style onKeyLine text with
  | .plain => cs
  | .singleQuoted => singleQuote indent cs
  | .doubleQuoted => doubleQuote cs
  | .literal => literalBlock indent cs

/-! ## Trees -/

/-- Exponents that are not negative have no sign. -/
def exponents : Number.ExponentStyle := ⟨"e"⟩

/-- A float. -/
def writeFloat (x : Number.Binary64) : String :=
  match x.unpack with
  | .nan => ".nan"
  | .infinite negative => if negative then "-.inf" else ".inf"
  | .finite negative significand exponent =>
    Number.documentText exponents negative significand exponent

/-- A literal whose lines start after `indent` spaces. -/
def writeLiteral (indent : Nat) : Literal → List Char
  | .bool b => (if b then "true" else "false").toList
  | .integer n => (toString n.toInt).toList
  | .float x => (writeFloat x).toList
  | .string s => writeString indent false s

/-- The spaces of one level. -/
def level : Nat := 2

/-- The longest key, in bytes, that stands on one line with its value. -/
def maxKeyLength : Nat := 128

/-- Does the key stand on one line with its value? -/
def isSimpleKey (key : String) : Bool :=
  !(shape key.toList).hasBreaks && key.utf8ByteSize ≤ maxKeyLength

/-- Ends a line, if a block of lines at its end has not done so. -/
def endLine (cs : List Char) : List Char :=
  if cs.getLast?.any isBreak then cs else cs ++ ['\n']

/-- A key with its colon. One that is no simple key stands on a line of its own after a mark. -/
def writeKey (indent : Nat) (key : String) : List Char :=
  if isSimpleKey key then writeString (indent + level) true key ++ [':']
  else
    endLine ('?' :: ' ' :: writeString (indent + level) false key) ++ indentation indent ++ [':']

/-- Lines that start after `indent` spaces, the first of them on the current line. -/
def joinLines (indent : Nat) : List (List Char) → List Char
  | [] => []
  | [line] => line
  | line :: rest => endLine line ++ indentation indent ++ joinLines indent rest

mutual

/-- A node right after a mark on the current line, in a container whose lines start after `indent`
spaces. -/
def afterMark (indent : Nat) : Node → List Char
  | .leaf s => ' ' :: writeLiteral (indent + level) s.plain
  | .map [] => " \x7b\x7d".toList
  | .list [] => " []".toList
  | .map es => ' ' :: joinLines (indent + level) (entryLines (indent + level) es)
  | .list xs => ' ' :: joinLines (indent + level) (elementLines (indent + level) xs)

/-- A node right after its key on the current line. Containers start on a line of their own. -/
def afterKey (indent : Nat) : Node → List Char
  | .leaf s => ' ' :: writeLiteral (indent + level) s.plain
  | .map [] => " \x7b\x7d".toList
  | .list [] => " []".toList
  | .map es =>
    '\n' :: indentation (indent + level) ++
      joinLines (indent + level) (entryLines (indent + level) es)
  | .list xs => '\n' :: indentation indent ++ joinLines indent (elementLines indent xs)

/-- The entries of a map, each of them with the lines below it. -/
def entryLines (indent : Nat) : List (String × Node) → List (List Char)
  | [] => []
  | (k, child) :: rest =>
    (writeKey indent k ++ if isSimpleKey k then afterKey indent child else afterMark indent child) ::
      entryLines indent rest

/-- The elements of a list, each of them with the lines below it. -/
def elementLines (indent : Nat) : List Node → List (List Char)
  | [] => []
  | child :: rest => ('-' :: afterMark indent child) :: elementLines indent rest

end

end Yaml

/-- The YAML document of a tree. An expression stands for its template. -/
def Node.yaml (n : Node) : String :=
  let document := match n with
    | .leaf s => Yaml.writeLiteral Yaml.level s.plain
    | .map [] => "\x7b\x7d".toList
    | .list [] => "[]".toList
    | .map es => Yaml.joinLines 0 (Yaml.entryLines 0 es)
    | .list xs => Yaml.joinLines 0 (Yaml.elementLines 0 xs)
  String.ofList (Yaml.endLine document)

end LayeredConfig
