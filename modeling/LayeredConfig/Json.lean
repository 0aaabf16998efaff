import LayeredConfig.Value

/-!
# JSON documents

The syntax tree of a JSON document. Numbers keep their text, so that writing and reading them are
matters of their own. A tree is written on one line (`compact`) or with one entry on each line
(`pretty`); `Value.toJson` and `Node.toJson` say which tree stands for a value.
-/

namespace LayeredConfig

/-- The syntax tree of a JSON document. -/
inductive Json where
  | null
  | bool (value : Bool)
  | number (text : String)
  | string (value : String)
  | array (items : List Json)
  | object (entries : List (String × Json))

namespace Json

instance : Inhabited Json := ⟨.null⟩

/-! ## Writing -/

/-- A character inside of quotes. Only quotes, backslashes and controls are escaped. -/
def escapeChar (c : Char) : List Char :=
  if c = '"' || c = '\\' then ['\\', c]
  else if c = '\x08' then ['\\', 'b']
  else if c = '\t' then ['\\', 't']
  else if c = '\n' then ['\\', 'n']
  else if c = '\x0c' then ['\\', 'f']
  else if c = '\r' then ['\\', 'r']
  else if c.toNat < 0x20 then
    let digits := Nat.toDigits 16 c.toNat
    '\\' :: 'u' :: (List.replicate (4 - digits.length) '0' ++ digits)
  else [c]

/-- A text in quotes. -/
def quote (s : String) : String :=
  String.ofList ('"' :: (s.toList.flatMap escapeChar ++ ['"']))

mutual

/-- The document on one line. -/
def compact : Json → String
  | .null => "null"
  | .bool b => if b then "true" else "false"
  | .number text => text
  | .string s => quote s
  | .array items => "[" ++ ",".intercalate (compactItems items) ++ "]"
  | .object entries => "\x7b" ++ ",".intercalate (compactEntries entries) ++ "\x7d"

/-- The items of an array. -/
def compactItems : List Json → List String
  | [] => []
  | item :: rest => compact item :: compactItems rest

/-- The entries of an object. -/
def compactEntries : List (String × Json) → List String
  | [] => []
  | (k, v) :: rest => (quote k ++ ":" ++ compact v) :: compactEntries rest

end

/-- The start of a line at the given depth. -/
def newLine (depth : Nat) : String :=
  String.ofList ('\n' :: List.replicate (2 * depth) ' ')

/-- Lines between two brackets, or nothing between them. -/
def bracketed (opening closing : String) (depth : Nat) (lines : List String) : String :=
  if lines.isEmpty then opening ++ closing
  else
    opening ++ newLine (depth + 1) ++ ("," ++ newLine (depth + 1)).intercalate lines ++
      newLine depth ++ closing

mutual

/-- The document with one item or entry on each line, inside of `depth` containers. -/
def prettyAt (depth : Nat) : Json → String
  | .array items => bracketed "[" "]" depth (prettyItems (depth + 1) items)
  | .object entries => bracketed "\x7b" "\x7d" depth (prettyEntries (depth + 1) entries)
  | .null => compact .null
  | .bool b => compact (.bool b)
  | .number text => compact (.number text)
  | .string s => compact (.string s)

/-- The items of an array. -/
def prettyItems (depth : Nat) : List Json → List String
  | [] => []
  | item :: rest => prettyAt depth item :: prettyItems depth rest

/-- The entries of an object. -/
def prettyEntries (depth : Nat) : List (String × Json) → List String
  | [] => []
  | (k, v) :: rest => (quote k ++ ": " ++ prettyAt depth v) :: prettyEntries depth rest

end

/-- The document with one item or entry on each line. -/
def pretty (j : Json) : String :=
  j.prettyAt 0

end Json

/-- Exponents that are not negative have a sign. -/
def jsonExponents : Number.ExponentStyle := ⟨"e+"⟩

/-- The JSON of a literal. What is no finite number becomes null. -/
def Literal.toJson : Literal → Json
  | .bool b => .bool b
  | .integer n => .number (toString n.toInt)
  | .float x =>
    match x.unpack with
    | .finite negative significand exponent =>
      .number (Number.documentText jsonExponents negative significand exponent)
    | _ => .null
  | .string s => .string s

namespace Node

mutual

/-- The JSON of a tree. An expression stands for its template. -/
def toJson : Node → Json
  | .leaf s => s.plain.toJson
  | .map es => .object (entriesToJson es)
  | .list xs => .array (elementsToJson xs)

/-- The JSON of the entries of a map. -/
def entriesToJson : List (String × Node) → List (String × Json)
  | [] => []
  | (k, child) :: rest => (k, toJson child) :: entriesToJson rest

/-- The JSON of the elements of a list. -/
def elementsToJson : List Node → List Json
  | [] => []
  | child :: rest => toJson child :: elementsToJson rest

end

end Node

namespace Value

mutual

/-- The JSON of a value. A spliced configuration shows its secrets. -/
def toJson : Value → Json
  | .null => .null
  | .literal l => l.toJson
  | .sequence items => .array (itemsToJson items)
  | .mapping entries => .object (entriesToJson entries)
  | .config d => d.root.toJson

/-- The JSON of the items of a sequence. -/
def itemsToJson : List Value → List Json
  | [] => []
  | value :: rest => toJson value :: itemsToJson rest

/-- The JSON of the entries of a mapping. -/
def entriesToJson : List (String × Value) → List (String × Json)
  | [] => []
  | (k, value) :: rest => (k, toJson value) :: entriesToJson rest

end

end Value

end LayeredConfig
