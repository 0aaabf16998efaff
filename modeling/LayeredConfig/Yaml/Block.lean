import LayeredConfig.Yaml.Character

/-!
# Reading scalars that are blocks of lines

Behind a bar the lines are taken as they are, behind an angle bracket they are folded. The indentation
is that of the first line with text, unless the header gives it. The header also says what becomes of
the line breaks at the end.
-/

namespace LayeredConfig.Yaml

/-- A line of a document with the characters that end it. There are none at the end of the document. -/
structure Line where
  content : List Char
  ending : List Char

namespace Line

/-- The line break that ends the line. -/
def break? (line : Line) : Option Char :=
  line.ending.head?.map normalBreak

/-- The lines of a text. -/
def ofText : List Char → List Line
  | [] => []
  | '\r' :: '\n' :: rest => ⟨[], ['\r', '\n']⟩ :: ofText rest
  | c :: rest =>
    if isBreak c then ⟨[], [c]⟩ :: ofText rest
    else match ofText rest with
      | [] => [⟨[c], []⟩]
      | line :: lines => { line with content := c :: line.content } :: lines

/-- The text of lines. -/
def toText (lines : List Line) : List Char :=
  lines.flatMap fun line => line.content ++ line.ending

end Line

/-- What becomes of the line breaks at the end of a block. -/
inductive Chomping where
  /-- None belongs to the text. -/
  | strip
  /-- The first belongs to the text. -/
  | clip
  /-- All belong to the text. -/
  | keep
deriving DecidableEq, Repr

/-- What the header of a block says. -/
structure BlockHeader where
  chomping : Chomping
  /-- How much deeper the lines are than what is around the block. -/
  increment? : Option Nat

/-- Takes a sign off, if there is one. -/
def takeChomping : List Char → Chomping × List Char
  | '+' :: rest => (.keep, rest)
  | '-' :: rest => (.strip, rest)
  | rest => (.clip, rest)

/-- Takes a digit off, if there is one. Zero is refused. -/
def takeIncrement : List Char → Option (Option Nat × List Char)
  | c :: rest =>
    if c == '0' then none
    else if c.isDigit then some (some (c.toNat - '0'.toNat), rest)
    else some (none, c :: rest)
  | [] => some (none, [])

/-- Reads the header of a block: a sign and a digit in either order. -/
def readHeader (cs : List Char) : Option (BlockHeader × List Char) := do
  match takeChomping cs with
  | (.clip, cs) =>
    let (increment?, rest) ← takeIncrement cs
    if increment?.isNone then return (⟨.clip, none⟩, rest)
    else
      let (chomping, rest) := takeChomping rest
      return (⟨chomping, increment?⟩, rest)
  | (chomping, cs) =>
    let (increment?, rest) ← takeIncrement cs
    return (⟨chomping, increment?⟩, rest)

/-- Goes to the next line, if nothing but blanks and a comment is left of this one. -/
def skipLineEnd? (cs : List Char) : Option (List Char) :=
  let rest := cs.dropWhile isBlank
  let rest := if rest.head? == some '#' then rest.dropWhile (!isBreak ·) else rest
  match rest with
  | [] => some []
  | '\r' :: '\n' :: rest => some rest
  | c :: rest => if isBreak c then some rest else none

/-- The greatest indentation of the empty lines at the start and of the first line with text. A tab
among the spaces is refused. -/
def startIndent? : List Line → Option Nat
  | [] => some 0
  | line :: rest =>
    let spaces := (line.content.takeWhile (· == ' ')).length
    match line.content.dropWhile (· == ' ') with
    | '\t' :: _ => none
    | [] => if line.ending.isEmpty then some spaces else (startIndent? rest).map (max spaces)
    | _ => some spaces

/-- What stands in front of the next line of a block. -/
structure BlockGap where
  /-- The break that ends the line before. -/
  break? : Option Char
  /-- The breaks of the empty lines after it. -/
  more : List Char
  /-- Does the line before start with a blank? -/
  afterBlank : Bool

/-- The text between two lines of a block. When lines are folded, a line feed becomes a space, or
nothing if empty lines follow; but not beside lines that start with a blank. -/
def BlockGap.text (g : BlockGap) (folded beforeBlank : Bool) : List Char :=
  let first :=
    if folded && g.break? == some '\n' && !g.afterBlank && !beforeBlank then
      if g.more.isEmpty then [' '] else []
    else g.break?.toList
  first ++ g.more

/-- Reads the lines of a block. Beside the text it gives what stands at its end, and the lines that do
not belong to it. -/
def readLines (folded : Bool) (indent : Nat) (gap : BlockGap) :
    List Line → Option (List Char × BlockGap × List Line)
  | [] => some ([], gap, [])
  | line :: rest =>
    let spaces := ((line.content.take indent).takeWhile (· == ' ')).length
    match line.content.drop spaces with
    | [] =>
      match line.break? with
      | some b => readLines folded indent { gap with more := gap.more ++ [b] } rest
      | none => some ([], gap, line :: rest)
    | c :: text =>
      if spaces < indent then
        if c == '\t' then none else some ([], gap, line :: rest)
      else
        (readLines folded indent ⟨line.break?, [], isBlank c⟩ rest).map fun (more, last, rest) =>
          (gap.text folded (isBlank c) ++ c :: text ++ more, last, rest)

/-- Reads a block behind its mark. What is around it is indented by the columns before `outer`. -/
def readBlock (folded : Bool) (outer : Nat) (cs : List Char) : Option (List Char × List Char) := do
  let (header, rest) ← readHeader cs
  let lines := Line.ofText (← skipLineEnd? rest)
  let indent ← match header.increment? with
    | some n => some (outer - 1 + n)
    | none => (startIndent? lines).map fun n => max n (max outer 1)
  let (text, last, lines) ← readLines folded indent ⟨none, [], false⟩ lines
  let ending := match header.chomping with
    | .strip => []
    | .clip => last.break?.toList
    | .keep => last.break?.toList ++ last.more
  return (text ++ ending, Line.toText lines)

end LayeredConfig.Yaml
