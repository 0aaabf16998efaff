import LayeredConfig.Path
import LayeredConfig.Text.Fields
import LayeredConfig.Text.LowerCase

/-!
# Secret names

Which leaves are secret is decided by the names on their paths. A redactor holds a set of secret names
and the text that is shown in place of a secret. A segment of a path is secret if the whole segment,
one of its parts between hyphens and underscores, or one of the camel-case words of a part is a secret
name. Case does not matter anywhere.
-/

namespace LayeredConfig

/-- A set of secret names, in lower case, and what is shown in place of a secret. -/
structure Redactor where
  names : List String
  replacement : String
deriving DecidableEq, Repr

namespace Redactor

/-- What is shown in place of a secret, unless something else is asked for. -/
def defaultReplacement : String := "***"

/-- The names that are secret unless others are asked for. -/
def defaultNames : List String :=
  ["password", "passwords", "secret", "secrets", "token", "tokens", "key", "keys", "apiKey",
    "apiKeys"]

/-- The redactor for the given names, in any case. -/
def ofNames (names : List String) (replacement : String) : Redactor :=
  ⟨names.map Text.lower, replacement⟩

/-- The redactor for the default names. -/
def standard : Redactor :=
  ofNames defaultNames defaultReplacement

/-- The redactor for which nothing is secret. -/
def disabled : Redactor :=
  ofNames [] defaultReplacement

/-- Do two redactors show the same text in place of the same secrets? The order of the names does not
count, nor how often one is given. -/
def alike (r s : Redactor) : Bool :=
  r.names.all (s.names.contains ·) && s.names.all (r.names.contains ·) &&
    r.replacement == s.replacement

/-- The word read so far, if there is one. -/
def word (chars : List Char) : List (List Char) :=
  if chars.isEmpty then [] else [chars]

/-- The camel-case words in the rest of a text, with the word read so far. A word is a run of ASCII
small letters with the capital before it, if there is one, or a capital by itself. -/
def wordsFrom (current : List Char) : List Char → List (List Char)
  | [] => word current
  | c :: rest =>
    if c.isLower then wordsFrom (current ++ [c]) rest
    else if c.isUpper then word current ++ wordsFrom [c] rest
    else word current ++ wordsFrom [] rest

/-- Is the text a secret name, in any case? -/
def holds (r : Redactor) (chars : List Char) : Bool :=
  r.names.contains (Text.lower (String.ofList chars))

/-- Does a segment of a path name a secret? -/
def isSecretName (r : Redactor) (segment : String) : Bool :=
  r.holds segment.toList ||
    ((Text.fieldsBy (fun c => c == '-' || c == '_') segment.toList).filter (!·.isEmpty)).any
      fun part => r.holds part || (wordsFrom [] part).any r.holds

/-- Does a name on the path name a secret? -/
def isSecret (r : Redactor) (p : Path) : Bool :=
  p.names.any r.isSecretName

end Redactor

end LayeredConfig
