import LayeredConfig.Error
import LayeredConfig.Text.Blank

/-!
# Alternatives of a reference

The text between the braces of a reference is split at `?` or `?:` into alternatives. A separator in
quotes does not count. A quote at the start of an alternative delimits it and is dropped; a quote in
the middle is kept, together with the one that closes it. A backslash takes the meaning from a quote.
Alternatives are trimmed, and blank ones are dropped.
-/

namespace LayeredConfig.Alternatives

/-- Why a text has no alternatives. -/
inductive Fault where
  /-- A backslash in front of something other than a quote. -/
  | illegalEscape (c : Char)
  /-- A backslash at the end. -/
  | danglingEscape
  /-- A quote that is never closed. -/
  | openQuote
deriving DecidableEq, Repr

/-- The wording of a fault. -/
def Fault.message : Fault → String
  | .illegalEscape c => "Illegal escape sequence '\\" ++ c.toString ++ "'"
  | .danglingEscape => "Dangling escape character"
  | .openQuote => "Unterminated quote"

/-- The error about the text `source`. -/
def Fault.toError (source : String) (fault : Fault) : Error :=
  .parse (fault.message ++ " in expression '" ++ source ++ "'")

/-- Is it one of the two quotes? -/
def isQuote (c : Char) : Bool :=
  c == '\'' || c == '"'

/-- Inside of a quotation: the quote that ends it, and whether the two quotes are kept. -/
structure Quotation where
  quote : Char
  kept : Bool
deriving DecidableEq, Repr

/-- The alternative that a piece of text makes, if it is not blank. -/
def piece (cs : List Char) : List String :=
  let trimmed := Text.trim cs
  if trimmed.isEmpty then [] else [String.ofList trimmed]

/-- Splits the rest of a text, with `chunk` the text since the last separator. -/
def scan (quotation? : Option Quotation) (chunk : List Char) : List Char → Except Fault (List String)
  | [] => if quotation?.isSome then .error .openQuote else .ok (piece chunk)
  | ['\\'] => .error .danglingEscape
  | '\\' :: c :: rest =>
    if isQuote c then scan quotation? (chunk ++ [c]) rest else .error (.illegalEscape c)
  | c :: rest =>
    match quotation? with
    | some quotation =>
      if c = quotation.quote then
        if quotation.kept then scan none (chunk ++ [c]) rest
        else return piece chunk ++ (← scan none [] rest)
      else scan quotation? (chunk ++ [c]) rest
    | none =>
      if isQuote c then
        if Text.isBlankText chunk then scan (some ⟨c, false⟩) [] rest
        else scan (some ⟨c, true⟩) (chunk ++ [c]) rest
      else if c = '?' then
        match rest with
        | ':' :: rest => return piece chunk ++ (← scan none [] rest)
        | rest => return piece chunk ++ (← scan none [] rest)
      else scan none (chunk ++ [c]) rest

/-- The alternatives in a text. -/
def split (source : String) : Result (List String) :=
  (scan none [] source.toList).mapError (Fault.toError source)

end LayeredConfig.Alternatives
