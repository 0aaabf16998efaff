import LayeredConfig.Expression.Alternatives
import LayeredConfig.Scalar

/-!
# Reading templates

A template is text with references `$` `{` ... `}` in it. A backslash takes the meaning from a brace or
a quote; in front of anything else it is a mistake. Inside of a reference a brace in quotes does not
close it. What stands between the braces is cut into alternatives by `LayeredConfig.Alternatives`.

A string without the two characters that open a reference is never read as a template.
-/

namespace LayeredConfig

namespace Template

/-- Why a text is no template. -/
inductive Fault where
  /-- A backslash in front of something other than a brace or a quote. -/
  | illegalEscape (c : Char)
  /-- A backslash at the end. -/
  | danglingEscape
  /-- A quote inside of a reference that is never closed. -/
  | openQuote
  /-- A reference that is never closed. -/
  | openReference
  /-- The text of a reference has no alternatives. -/
  | alternatives (source : String) (fault : Alternatives.Fault)
deriving DecidableEq, Repr

/-- The error about the template `template`. -/
def Fault.toError (template : String) : Fault → Error
  | .illegalEscape c => here ("Illegal escape sequence '\\" ++ c.toString ++ "'")
  | .danglingEscape => here "Dangling escape character at end of template"
  | .openQuote => here "Unterminated quote in expression"
  | .openReference => here "Unterminated expression, expected '\x7d'"
  | .alternatives source fault => fault.toError source
where
  here (message : String) : Error := .parse (message ++ " in template '" ++ template ++ "'")

/-- The characters that a backslash may stand before. -/
def isEscapable (c : Char) : Bool :=
  c == '{' || c == '}' || Alternatives.isQuote c

/-- Where in a template a reader is. -/
inductive Place where
  /-- In text, with what was read since the last reference. -/
  | text (chars : List Char)
  /-- Between the braces of a reference, with what was read since the opening one, and the quote that
  is open. Quotes that lost their meaning keep their backslash here. -/
  | reference (chars : List Char) (quote? : Option Char)
deriving DecidableEq, Repr

/-- The segment for a piece of text, if there is any. -/
def textSegment (chars : List Char) : List Segment :=
  if chars.isEmpty then [] else [.fixed (.string (String.ofList chars))]

/-- The segment for the text between two braces. Without alternatives it stands for no text. -/
def referenceSegment (chars : List Char) : Except Fault Segment :=
  match Alternatives.scan none [] chars with
  | .error fault => .error (.alternatives (String.ofList chars) fault)
  | .ok [] => .ok (.fixed (.string ""))
  | .ok alternatives => .ok (.reference (Text.trimmed (String.ofList chars)) alternatives)

/-- The place after `c` that stands without its special meaning. -/
def Place.escaped (c : Char) : Place → Place
  | .text chars => .text (chars ++ [c])
  | .reference chars quote? =>
    .reference (chars ++ if Alternatives.isQuote c then ['\\', c] else [c]) quote?

/-- The open quote after reading `c`. -/
def nextQuote (c : Char) (quote? : Option Char) : Option Char :=
  match quote? with
  | none => if Alternatives.isQuote c then some c else none
  | some quote => if c = quote then none else some quote

/-- Reads the rest of a template. -/
def scan : Place → List Char → Except Fault (List Segment)
  | .text chars, [] => .ok (textSegment chars)
  | .reference _ quote?, [] => .error (if quote?.isSome then .openQuote else .openReference)
  | _, ['\\'] => .error .danglingEscape
  | place, '\\' :: c :: rest =>
    if isEscapable c then scan (place.escaped c) rest else .error (.illegalEscape c)
  | .text chars, '$' :: '{' :: rest => do
    let more ← scan (.reference [] none) rest
    return textSegment chars ++ more
  | .text chars, c :: rest => scan (.text (chars ++ [c])) rest
  | .reference chars quote?, c :: rest =>
    if c = '}' ∧ quote? = none then do
      let segment ← referenceSegment chars
      let more ← scan (.text []) rest
      return segment :: more
    else scan (.reference (chars ++ [c]) (nextQuote c quote?)) rest

/-- The segments of a template. The empty template has one, without text. -/
def segments (cs : List Char) : Except Fault (List Segment) := do
  match ← scan (.text []) cs with
  | [] => return [.fixed (.string "")]
  | found => return found

/-- Does the text open a reference anywhere? -/
def opensReference : List Char → Bool
  | [] => false
  | '$' :: '{' :: _ => true
  | _ :: rest => opensReference rest

end Template

/-- Reads a template. -/
def Expression.parse (template : String) : Result Expression :=
  match Template.segments template.toList with
  | .ok segments => .ok ⟨template, segments⟩
  | .error fault => .error (fault.toError template)

/-- Reads a string leaf that opens a reference as a template. All other scalars stay as they are. -/
def Scalar.parse (s : Scalar) : Result Scalar :=
  match s with
  | .literal (.string template) =>
    if Template.opensReference template.toList then
      return (← Expression.parse template).toScalar
    else return s
  | _ => return s

end LayeredConfig
