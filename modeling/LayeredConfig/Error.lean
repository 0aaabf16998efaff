/-!
# Errors

What can go wrong, with the place, the cause and a line of advice. Every error has one text, written
by `Error.message`: a headline that depends on the kind only, then one indented line for each of the
parts that are known.
-/

namespace LayeredConfig

/-- The kinds of failure. -/
inductive ErrorKind where
  /-- A path text with a blank segment, bad brackets or a bad index. -/
  | invalidPath
  /-- Nothing is stored at a required path. -/
  | missingValue
  /-- A stored value does not convert to the wanted type. -/
  | valueConversion
  /-- A document or a template cannot be read. -/
  | parse
  /-- A template refers to something that has no value. -/
  | unresolvedExpression
  /-- An audited configuration holds values that nobody read. -/
  | unusedValues
  /-- A parser broke its own contract. -/
  | internal
deriving DecidableEq, Repr

/-- The first line of the text of an error. -/
def ErrorKind.headline : ErrorKind → String
  | .invalidPath => "Invalid path"
  | .missingValue => "Missing config value"
  | .valueConversion => "Value conversion failed"
  | .parse => "Parse error"
  | .unresolvedExpression => "Unresolved expression"
  | .unusedValues => "Unused config values"
  | .internal => "Internal error"

/-- A failure: its kind, the path it is about, the cause and a line of advice. -/
structure Error where
  kind : ErrorKind
  path? : Option String
  cause? : Option String
  help? : Option String
deriving DecidableEq, Repr

namespace Error

/-- A malformed path text. -/
def invalidPath (path cause : String) : Error where
  kind := .invalidPath
  path? := some path
  cause? := some cause
  help? := some "Use dotted names with bracketed indexes, e.g. 'servers[0].host'"

/-- Nothing is stored at `path`. -/
def missingValue (path : String) : Error where
  kind := .missingValue
  path? := some path
  cause? := none
  help? := some ("Check that '" ++ path ++ "' exists in the configuration")

/-- The value `got`, stored at `path`, is no `expected`. -/
def valueConversion (path expected got : String) : Error where
  kind := .valueConversion
  path? := some path
  cause? := some ("Got: " ++ got)
  help? := some ("Ensure the value can be converted to " ++ expected)

/-- A text that cannot be read. The path is added by whoever knows it. -/
def parse (cause : String) : Error where
  kind := .parse
  path? := none
  cause? := some cause
  help? := none

/-- The template at `path` refers to something that has no value. -/
def unresolvedExpression (path template : String) : Error where
  kind := .unresolvedExpression
  path? := some path
  cause? := some ("Expression: " ++ template)
  help? := some
    "Define the referenced value or add a default alternative: $\x7bname?default\x7d"

/-- How many unused paths the error lists before it breaks off. -/
def listedPaths : Nat := 5

/-- Values that nobody read. The first paths are listed, and three dots stand for the others. -/
def unusedValues (paths : List String) : Error where
  kind := .unusedValues
  path? := none
  cause? := some ("Unused paths:\n    " ++ "\n    ".intercalate
    (paths.take listedPaths ++ (if listedPaths < paths.length then ["..."] else [])))
  help? := some "Remove the values or read them before checking for unused ones"

/-- A parser broke its own contract. -/
def internal (cause : String) : Error where
  kind := .internal
  path? := none
  cause? := some cause
  help? := some "This is likely a bug in treeconf. Please report it."

/-- The same error, about `path`. -/
def withPath (e : Error) (path : String) : Error :=
  { e with path? := some path }

/-- The same error with other advice. -/
def withHelp (e : Error) (help : String) : Error :=
  { e with help? := some help }

/-- The text of an error: the headline, then the path, the cause and the advice, each on an indented
line of its own if it is known. -/
def message (e : Error) : String :=
  e.kind.headline ++
    (e.path?.elim "" fun path => "\n  Path: " ++ path) ++
    (e.cause?.elim "" fun cause => "\n  " ++ cause) ++
    (e.help?.elim "" fun help => "\n  Help: " ++ help)

end Error

/-- A computation that may fail with an `Error`. -/
abbrev Result (α : Type) := Except Error α

end LayeredConfig
