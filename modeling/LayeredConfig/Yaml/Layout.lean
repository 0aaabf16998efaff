import LayeredConfig.Yaml.Block
import LayeredConfig.Yaml.Quoted
import LayeredConfig.Yaml.Tag
import LayeredConfig.Yaml.Unquoted

/-!
# From text to tokens

Reads a document from the left and keeps what its layout demands: the columns of the collections that
indentation has opened, and the tokens that turn out to be keys when a colon follows. Such a key is
shorter than 1025 bytes and stands on one line.

`Token.ofText?` gives the tokens of a text, or nothing if the text is no document.
-/

namespace LayeredConfig.Yaml

/-- A place in a text: what follows it, and where it is. -/
structure Place where
  rest : List Char
  /-- The number of bytes before it. -/
  index : Nat
  line : Nat
  column : Nat

namespace Place

/-- The place behind the next character. -/
def step : Place → Place
  | ⟨[], index, line, column⟩ => ⟨[], index, line, column⟩
  | ⟨c :: rest, index, line, column⟩ =>
    let index := index + c.utf8Size
    if !isBreak c then ⟨rest, index, line, column + 1⟩
    else if c == '\r' && rest.head? == some '\n' then ⟨rest, index, line, column⟩
    else ⟨rest, index, line + 1, 0⟩

/-- The place behind the next `n` characters. -/
def advance (p : Place) : Nat → Place
  | 0 => p
  | n + 1 => p.step.advance n

/-- The place before `rest`, which is an end of what follows. -/
def before (p : Place) (rest : List Char) : Place :=
  p.advance (p.rest.length - rest.length)

end Place

/-- A token that is a key if a colon follows. -/
structure Candidate where
  /-- The number of tokens in front of it. -/
  before : Nat
  index : Nat
  line : Nat
  column : Nat
  /-- Does the indentation demand a key here? -/
  required : Bool

/-- The bytes within which a colon has to follow the start of a key. -/
def maxKeySpan : Nat := 1024

/-- Is it too late for the colon of a key? -/
def Candidate.isPast (k : Candidate) (p : Place) : Bool :=
  k.line < p.line || k.index + maxKeySpan < p.index

/-- A document that is read up to a place. -/
structure Layout where
  place : Place
  /-- The tokens read so far, the last one first. -/
  tokens : List Token
  /-- The columns of the open collections by indentation, the innermost first. -/
  columns : List Nat
  /-- What may be a key in the innermost collection. -/
  candidate? : Option Candidate
  /-- What may be a key in the collections around the innermost brackets, one for each of them. -/
  outer : List (Option Candidate)
  /-- May a key start here? -/
  keyAllowed : Bool

namespace Layout

/-- Is the place between brackets? -/
def flow (l : Layout) : Bool :=
  !l.outer.isEmpty

/-- The column from which on text belongs to the innermost collection by indentation. -/
def indent (l : Layout) : Nat :=
  l.columns.head?.elim 0 (· + 1)

/-- Writes a token. -/
def put (l : Layout) (t : Token) : Layout :=
  { l with tokens := t :: l.tokens }

/-- Writes a token and goes on before `rest`. -/
def putTo (l : Layout) (t : Token) (rest : List Char) : Layout :=
  { l.put t with place := l.place.before rest }

/-- Writes tokens behind the first `n`. -/
def insert (l : Layout) (n : Nat) (new : List Token) : Layout :=
  let later := l.tokens.length - n
  { l with tokens := l.tokens.take later ++ new.reverse ++ l.tokens.drop later }

/-- Says whether a key may start. -/
def allowKey (l : Layout) (allowed : Bool) : Layout :=
  { l with keyAllowed := allowed }

/-- A candidate for which it is too late is none any more. A required one is an error then. -/
def expire (l : Layout) : Option Layout := do
  let check (k? : Option Candidate) : Option (Option Candidate) :=
    match k? with
    | some k => if !k.isPast l.place then some (some k) else if k.required then none else some none
    | none => some none
  let candidate? ← check l.candidate?
  let outer ← l.outer.mapM check
  return { l with candidate?, outer }

/-- Gives the candidate up. A required one is an error then. -/
def dropCandidate (l : Layout) : Option Layout :=
  if l.candidate?.any (·.required) then none else some { l with candidate? := none }

/-- Makes the token that starts here a candidate, if a key may start. -/
def mayBeKey (l : Layout) : Option Layout :=
  if l.keyAllowed then
    l.dropCandidate.map fun l =>
      { l with candidate? := some {
          before := l.tokens.length
          index := l.place.index
          line := l.place.line
          column := l.place.column
          required := !l.flow && l.columns.head? == some l.place.column } }
  else some l

/-- Does a collection by indentation open at the column? -/
def opensAt (l : Layout) (column : Nat) : Bool :=
  !l.flow && l.columns.head?.all (· < column)

/-- Opens a collection by indentation at the current column, if it is deeper than those around it. -/
def openBlock (l : Layout) (t : Token) : Layout :=
  if l.opensAt l.place.column then { l.put t with columns := l.place.column :: l.columns } else l

/-- Closes the collections by indentation for which `closes` holds. -/
def closeBlocks (l : Layout) (closes : Nat → Bool) : Layout :=
  if l.flow then l
  else
    let closed := l.columns.takeWhile closes
    { l with
      columns := l.columns.dropWhile closes
      tokens := List.replicate closed.length .blockEnd ++ l.tokens }

/-- Skips white space and comments. Tabs are white space only where no key may start, and a line break
outside of brackets allows a key. The mark of the encoding is skipped at the start of a line and takes a
column there. Gives the rest and whether a key may start there. -/
def skipGap (flow : Bool) (column : Nat) (keyAllowed inComment : Bool) :
    List Char → List Char × Bool
  | [] => ([], keyAllowed)
  | c :: rest =>
    if isBreak c then skipGap flow 0 (keyAllowed || !flow) false rest
    else if inComment || c == '#' then skipGap flow (column + 1) keyAllowed true rest
    else if c == ' ' || (c == '\t' && (flow || !keyAllowed)) || (c == '\ufeff' && column == 0) then
      skipGap flow (column + 1) keyAllowed false rest
    else (c :: rest, keyAllowed)

/-- Goes to the next token. -/
def toToken (l : Layout) : Option Layout := do
  let (rest, keyAllowed) := skipGap l.flow l.place.column l.keyAllowed false l.place.rest
  let l ← { l with place := l.place.before rest, keyAllowed }.expire
  return l.closeBlocks fun column => l.place.column < column

/-! ## Tokens -/

/-- Ends the document or the text: all collections by indentation close. -/
def closeAll (l : Layout) : Option Layout := do
  let l ← (l.closeBlocks fun _ => true).dropCandidate
  return l.allowKey false

/-- A directive. -/
def takeDirective (l : Layout) (rest : List Char) : Option Layout := do
  let l ← l.closeAll
  let (t, rest) ← readDirective rest
  return l.putTo t (← skipLineEnd? rest)

/-- The start or the end of a document. -/
def takeMarker (l : Layout) (t : Token) : Option Layout := do
  let l ← l.closeAll
  return l.putTo t (l.place.rest.drop 3)

/-- An opening bracket. -/
def openFlow (l : Layout) (t : Token) (rest : List Char) : Option Layout := do
  let l ← l.mayBeKey
  return ({ l with candidate? := none, outer := l.candidate? :: l.outer }.allowKey true).putTo t rest

/-- A closing bracket. -/
def closeFlow (l : Layout) (t : Token) (rest : List Char) : Option Layout := do
  let l ← l.dropCandidate
  let l := match l.outer with
    | k? :: outer => { l with candidate? := k?, outer }
    | [] => l
  return (l.allowKey false).putTo t rest

/-- A comma between brackets. -/
def takeComma (l : Layout) (rest : List Char) : Option Layout := do
  let l ← l.dropCandidate
  return (l.allowKey true).putTo .comma rest

/-- Opens a collection by indentation at a mark of it. -/
def openAtMark (l : Layout) (t : Token) : Option Layout :=
  if l.flow then some l else if l.keyAllowed then some (l.openBlock t) else none

/-- The mark of an item. -/
def takeItem (l : Layout) (rest : List Char) : Option Layout := do
  let l ← (← l.openAtMark .blockList).dropCandidate
  return (l.allowKey true).putTo .item rest

/-- The mark of a key that need not be short. -/
def takeKey (l : Layout) (rest : List Char) : Option Layout := do
  let l ← (← l.openAtMark .blockMap).dropCandidate
  return (l.allowKey (!l.flow)).putTo .key rest

/-- The colon before a value. If there is a candidate, it is the key. -/
def takeValue (l : Layout) (rest : List Char) : Option Layout :=
  match l.candidate? with
  | some k =>
    let opened : Layout :=
      if l.opensAt k.column then
        { l.insert k.before [.blockMap, .key] with columns := k.column :: l.columns }
      else l.insert k.before [.key]
    some (({ opened with candidate? := none }.allowKey false).putTo .value rest)
  | none => (l.openAtMark .blockMap).map fun l => (l.allowKey (!l.flow)).putTo .value rest

/-- A token that may be a key, or may come before one. -/
def takeNode (l : Layout) (read? : Option (Token × List Char)) : Option Layout := do
  let l ← l.mayBeKey
  let (t, rest) ← read?
  return (l.allowKey false).putTo t rest

/-- Reads the name of an anchor or an alias. -/
def readName? (cs : List Char) : Option (String × List Char) :=
  let name := cs.takeWhile isNameChar
  let rest := cs.dropWhile isNameChar
  let ended := isBlankOrEnd rest.head? || rest.head?.any "?:,]\x7d%@`".toList.contains
  if name.isEmpty || !ended then none else some (String.ofList name, rest)

/-- A scalar without quotes. -/
def takeUnquoted (l : Layout) : Option Layout := do
  let l ← l.mayBeKey
  let scalar ← readPlain ⟨l.flow, l.indent⟩ l.place.column l.place.rest
  return (l.allowKey scalar.broken).putTo (.scalar true (String.ofList scalar.text)) scalar.rest

/-- A scalar that is a block of lines. -/
def takeBlock (l : Layout) (folded : Bool) (rest : List Char) : Option Layout := do
  let l ← l.dropCandidate
  let (text, rest) ← readBlock folded l.indent rest
  return (l.allowKey true).putTo (.scalar false (String.ofList text)) rest

/-- A scalar in quotes. -/
def takeQuoted (l : Layout) (double : Bool) (rest : List Char) : Option Layout :=
  l.takeNode <| (readQuoted double rest).map fun (text, rest) =>
    (.scalar false (String.ofList text), rest)

/-- May a scalar without quotes start with the character? -/
def startsUnquoted (flow : Bool) (c : Char) (next? : Option Char) : Bool :=
  match c with
  | '-' => !next?.any isBlank
  | '?' | ':' => !flow && !isBlankOrEnd next?
  | c => !(isFlowMark c || isWhite c || "#&*!|>'\"%@`".toList.contains c)

/-- Takes the token that starts with the character `c` before `rest`. -/
def takeToken (l : Layout) (c : Char) (rest : List Char) : Option Layout :=
  let alone := isBlankOrEnd rest.head?
  if l.place.column = 0 && c == '%' then l.takeDirective rest
  else if l.place.column = 0 && startsMarker (c :: rest) then
    l.takeMarker (if c == '-' then .documentStart else .documentEnd)
  else match c with
    | '[' => l.openFlow .flowList rest
    | '\x7b' => l.openFlow .flowMap rest
    | ']' => l.closeFlow .flowListEnd rest
    | '\x7d' => l.closeFlow .flowMapEnd rest
    | ',' => l.takeComma rest
    | '*' => l.takeNode ((readName? rest).map fun (name, rest) => (.alias name, rest))
    | '&' => l.takeNode ((readName? rest).map fun (name, rest) => (.anchor name, rest))
    | '!' => l.takeNode (readTag l.flow (c :: rest))
    | '\'' => l.takeQuoted false rest
    | '"' => l.takeQuoted true rest
    | _ =>
      if c == '-' && alone then l.takeItem rest
      else if c == '?' && (l.flow || alone) then l.takeKey rest
      else if c == ':' && (l.flow || alone) then l.takeValue rest
      else if (c == '|' || c == '>') && !l.flow then l.takeBlock (c == '>') rest
      else if startsUnquoted l.flow c rest.head? then l.takeUnquoted
      else none

/-- Takes all tokens, at most as many as the fuel. -/
def takeAll (fuel : Nat) (l : Layout) : Option (List Token) :=
  match fuel with
  | 0 => none
  | fuel + 1 => do
    let l ← l.toToken
    match l.place.rest with
    | [] => return (← l.closeAll).tokens.reverse
    | c :: rest => takeAll fuel (← l.takeToken c rest)

end Layout

/-- The tokens of a text. Each of them takes a character at least, so there are no more than characters. -/
def Token.ofText? (text : String) : Option (List Token) :=
  let cs := text.toList
  if cs.all isAllowed then
    Layout.takeAll (cs.length + 1) {
      place := ⟨cs, 0, 0, 0⟩
      tokens := []
      columns := []
      candidate? := none
      outer := []
      keyAllowed := true }
  else none

end LayeredConfig.Yaml
