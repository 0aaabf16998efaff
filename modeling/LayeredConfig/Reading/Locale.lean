import LayeredConfig.Text.Blank
import LayeredConfig.Text.Fields

/-!
# Locales

A language tag: a known language of two letters, then perhaps a script of four letters, then perhaps a
region of two letters or three digits. Hyphens and underscores separate the parts and case does not
matter. The parts are kept in their usual case, so equal locales have equal texts.
-/

namespace LayeredConfig

/-- A language, perhaps with a script and a region. -/
structure Locale where
  language : String
  script? : Option String
  region? : Option String
deriving DecidableEq, Repr

namespace Locale

/-- Why a text is no locale. -/
inductive Fault where
  /-- The language is not known. -/
  | unavailable
  /-- A part that cannot stand where it does. -/
  | badSubtag (subtag : String)
deriving DecidableEq, Repr

/-- The wording of a fault of the tag `tag`. -/
def Fault.message (tag : String) : Fault → String
  | .unavailable => "Locale is not available: " ++ tag
  | .badSubtag subtag => "Invalid locale subtag '" ++ subtag ++ "' in: " ++ tag

/-- The languages that a locale may have. -/
def languages : List String := [
  "aa", "ab", "ae", "af", "ak", "am", "an", "ar", "as", "av", "ay", "az", "ba", "be", "bg", "bh",
  "bi", "bm", "bn", "bo", "br", "bs", "ca", "ce", "ch", "co", "cr", "cs", "cu", "cv", "cy", "da",
  "de", "dv", "dz", "ee", "el", "en", "eo", "es", "et", "eu", "fa", "ff", "fi", "fj", "fo", "fr",
  "fy", "ga", "gd", "gl", "gn", "gu", "gv", "ha", "he", "hi", "ho", "hr", "ht", "hu", "hy", "hz",
  "ia", "id", "ie", "ig", "ii", "ik", "io", "is", "it", "iu", "ja", "jv", "ka", "kg", "ki", "kj",
  "kk", "kl", "km", "kn", "ko", "kr", "ks", "ku", "kv", "kw", "ky", "la", "lb", "lg", "li", "ln",
  "lo", "lt", "lu", "lv", "mg", "mh", "mi", "mk", "ml", "mn", "mr", "ms", "mt", "my", "na", "nb",
  "nd", "ne", "ng", "nl", "nn", "no", "nr", "nv", "ny", "oc", "oj", "om", "or", "os", "pa", "pi",
  "pl", "ps", "pt", "qu", "rm", "rn", "ro", "ru", "rw", "sa", "sc", "sd", "se", "sg", "si", "sk",
  "sl", "sm", "sn", "so", "sq", "sr", "ss", "st", "su", "sv", "sw", "ta", "te", "tg", "th", "ti",
  "tk", "tl", "tn", "to", "tr", "ts", "tt", "tw", "ty", "ug", "uk", "ur", "uz", "ve", "vi", "vo",
  "wa", "wo", "xh", "yi", "yo", "za", "zh", "zu"]

/-- The usual case of a script: a capital first. -/
def scriptCase : List Char → List Char
  | [] => []
  | c :: rest => c.toUpper :: rest.map Char.toLower

/-- Has the part the form of a script? -/
def isScript (subtag : List Char) : Bool :=
  subtag.length == 4 && subtag.all Char.isAlpha

/-- Has the part the form of a region? -/
def isRegion (subtag : List Char) : Bool :=
  (subtag.length == 2 && subtag.all Char.isAlpha) || (subtag.length == 3 && subtag.all Char.isDigit)

/-- Adds the parts after the language one by one. A script comes before the region, and neither comes
twice. -/
def addSubtags (l : Locale) : List (List Char) → Except Fault Locale
  | [] => .ok l
  | subtag :: more =>
    if isScript subtag && l.script?.isNone && l.region?.isNone then
      addSubtags { l with script? := some (String.ofList (scriptCase subtag)) } more
    else if isRegion subtag && l.region?.isNone then
      addSubtags { l with region? := some (String.ofList (subtag.map Char.toUpper)) } more
    else .error (.badSubtag (String.ofList subtag))

/-- Reads a language tag. -/
def read (tag : String) : Except Fault Locale :=
  match Text.fieldsBy (fun c => c == '-' || c == '_') (Text.trim tag.toList) with
  | [] => .error .unavailable
  | first :: subtags =>
    let language := String.ofList (first.map Char.toLower)
    if languages.contains language then addSubtags ⟨language, none, none⟩ subtags
    else .error .unavailable

/-- The text of a locale. -/
def display (l : Locale) : String :=
  l.language ++ (l.script?.elim "" ("-" ++ ·)) ++ (l.region?.elim "" ("-" ++ ·))

end Locale

end LayeredConfig
