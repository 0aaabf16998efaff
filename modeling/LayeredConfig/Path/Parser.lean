import LayeredConfig.Error
import LayeredConfig.Path
import LayeredConfig.Text.Blank
import LayeredConfig.Text.Fields

/-!
# Reading paths

The text of a path is cut at its points into chunks. A chunk is a name, a name followed by bracketed
indexes, or indexes alone; the indexes of the last kind continue the chunk before, so `a.[0]` and
`a[0]` are the same path. The empty text is the root.

`Fault` lists what can be wrong with a text, and `Fault.message` words it.
-/

namespace LayeredConfig

namespace Path

/-- What can be wrong with the text of a path. -/
inductive Fault where
  /-- A name without a visible character, or a chunk without any. -/
  | blankSegment
  /-- A name with a character that the text of a path uses for itself. -/
  | reservedCharacter
  /-- Something other than a bracket follows an index. -/
  | unexpectedText (rest : String)
  /-- A bracket is never closed. -/
  | openBracket
  /-- Something other than digits stands in brackets. -/
  | badIndex (text : String)
  /-- An index that no list can have. -/
  | indexTooLarge
  /-- The path should start with a name and does not. -/
  | notAbsolute
  /-- The path does not lead through the given one. -/
  | outside (start : String)
deriving DecidableEq, Repr

/-- The wording of a fault. -/
def Fault.message : Fault → String
  | .blankSegment => "Blank path segment"
  | .reservedCharacter => "Path segment name may not contain '.', '[' or ']'"
  | .unexpectedText rest => "Unexpected text '" ++ rest ++ "'"
  | .openBracket => "Unterminated '[' in path"
  | .badIndex text => "Expected non negative index, got '" ++ text ++ "'"
  | .indexTooLarge => "Invalid index: number too large to fit in target type"
  | .notAbsolute => "Expected non empty path starting with a named element, e.g. 'a.b'"
  | .outside start => "Path does not start with prefix '" ++ start ++ "'"

/-- The error about the path text `input`. -/
def Fault.toError (input : String) (fault : Fault) : Error :=
  .invalidPath input fault.message

/-- The characters with a meaning in the text of a path. -/
def isReserved (c : Char) : Bool :=
  c == '.' || c == '[' || c == ']'

/-- What keeps a text from being the name of a step. -/
def nameFault? (name : List Char) : Option Fault :=
  if Text.isBlankText name then some .blankSegment
  else if name.any isReserved then some .reservedCharacter
  else none

/-- The names that can be written in the text of a path and read back. -/
def IsName (name : String) : Prop :=
  nameFault? name.toList = none

instance (name : String) : Decidable (IsName name) :=
  inferInstanceAs (Decidable (_ = _))

/-- The first number that is too large for an index. -/
def indexLimit : Nat := Nat.pow 2 64

/-- The index written with the given digits. -/
def readIndex (digits : List Char) : Except Fault Nat :=
  if digits.isEmpty || !digits.all Char.isDigit then .error (.badIndex (String.ofList digits))
  else
    let index := Nat.ofDigitChars 10 digits 0
    if index < indexLimit then .ok index else .error .indexTooLarge

/-- Reads bracketed indexes up to the end of a chunk. Between brackets `digits?` is `none`, and inside
them it holds what was read since the opening one. -/
def readIndexes (digits? : Option (List Char)) : List Char → Except Fault (List Step)
  | [] => if digits?.isSome then .error .openBracket else .ok []
  | c :: rest =>
    match digits? with
    | none =>
      if c == '[' then readIndexes (some []) rest
      else .error (.unexpectedText (String.ofList (c :: rest)))
    | some digits =>
      if c == ']' then do
        let index ← readIndex digits
        let more ← readIndexes none rest
        return .index index :: more
      else readIndexes (some (digits ++ [c])) rest

/-- Reads what stands between two points. -/
def readChunk (chunk : List Char) : Except Fault (List Step) := do
  let name := chunk.takeWhile (· != '[')
  let indexes := chunk.dropWhile (· != '[')
  if name.isEmpty then
    if indexes.isEmpty then .error .blankSegment
    else readIndexes none indexes
  else
    match nameFault? name with
    | some fault => .error fault
    | none => return .name (String.ofList name) :: (← readIndexes none indexes)

/-- Reads the characters of a path text. -/
def readChars : List Char → Except Fault Path
  | [] => .ok []
  | cs => do
    let steps ← (Text.fields '.' cs).mapM readChunk
    return steps.flatten

/-- Reads the text of a path. -/
def parse (input : String) : Result Path :=
  (readChars input.toList).mapError (Fault.toError input)

/-- Reads the text of a path that has to start with a name. -/
def parseAbsolute (input : String) : Result Path := do
  let p ← parse input
  match p with
  | .name _ :: _ => return p
  | _ => throw (Fault.notAbsolute.toError input)

/-- The rest of `p` below the node at `start`, which `p` has to lead through. -/
def below (p start : Path) : Result Path :=
  if p.startsWith start then .ok (p.drop start.length)
  else .error ((Fault.outside start.text).toError p.text)

end Path

/-- The step to the entry `name`, if that name can be written in the text of a path. -/
def Step.named (name : String) : Result Step :=
  match Path.nameFault? name.toList with
  | some fault => .error (fault.toError name)
  | none => .ok (.name name)

end LayeredConfig
