import LayeredConfig.Number.FloatText
import LayeredConfig.Number.Integer
import LayeredConfig.Reading.DateTime
import LayeredConfig.Reading.Duration
import LayeredConfig.Reading.Locale
import LayeredConfig.Text.Quoted
import LayeredConfig.Value

/-!
# Typed reads

A node is read as one of the types of `ReadType`. Some scalars are of the type already; a string that
is not goes to a parser. A registry is a list of parsers, and the first one that applies to the type is
asked. Parsers are given from outside, so a parser may give a reading of another type than it should;
this is an error of its own.

* `ReadType.ofScalar?` converts without a parser;
* `Registry.parse` asks the parsers;
* `Registry.read` puts the two together.
-/

namespace LayeredConfig

open Number

/-- The types that a value can be read as. -/
inductive ReadType where
  | bool
  | int (kind : IntKind)
  | f32
  | f64
  | string
  | decimal
  | duration
  /-- A date that keeps its offset. -/
  | offset
  /-- A date in universal time. -/
  | instant
  | locale
  | value
deriving DecidableEq, Repr

namespace ReadType

/-- What a reading of the type is. -/
def Carrier : ReadType → Type
  | .bool => Bool
  | .int kind => Ranged kind
  | .f32 => Binary32
  | .f64 => Binary64
  | .string => String
  | .decimal => Decimal
  | .duration => Duration
  | .offset => DateTime
  | .instant => DateTime
  | .locale => Locale
  | .value => Value

/-- The name of the type in messages. -/
def name : ReadType → String
  | .bool => "bool"
  | .int kind => kind.name
  | .f32 => "f32"
  | .f64 => "f64"
  | .string => "string"
  | .decimal => "decimal"
  | .duration => "duration"
  | .offset => "offset date-time"
  | .instant => "instant"
  | .locale => "locale"
  | .value => "value"

/-- The reading of a literal that needs no parser: numbers convert among each other where nothing but
precision is lost, and every literal has a text. -/
def ofLiteral? : (t : ReadType) → Literal → Option t.Carrier
  | .bool, .bool b => some b
  | .int kind, .integer n => kind.ofInt? n.toInt
  | .f64, .float x => some x
  | .f64, .integer n => some (Binary64.ofInt n.toInt)
  | .f32, .float x => some x.toBinary32
  | .f32, .integer n => some (Binary32.ofInt n.toInt)
  | .string, l => some l.display
  | .decimal, .integer n => Decimal.ofInt? n.toInt
  | .decimal, .float x => Decimal.ofBinary64? x
  | _, _ => none

/-- The reading of a scalar that needs no parser. An expression is a value only, by its template. -/
def ofScalar? : (t : ReadType) → Scalar → Option t.Carrier
  | .value, s => some (Value.literal s.plain)
  | t, .literal l => t.ofLiteral? l
  | _, .expression _ => none

/-- The reading of a map or a list. -/
def ofContainer? : (t : ReadType) → Node → Option t.Carrier
  | .value, n => some n.toValue
  | _, _ => none

end ReadType

/-- A value of one of the types. -/
abbrev Reading := (t : ReadType) × t.Carrier

/-- The reading as one of type `t`. -/
def Reading.as? (r : Reading) (t : ReadType) : Option t.Carrier :=
  if h : r.1 = t then some (h ▸ r.2) else none

/-- Reads a text as a value of some type. -/
structure ValueParser where
  /-- Is the parser for this type and this text? -/
  appliesTo : ReadType → String → Bool
  parse : String → Except String Reading
  /-- The name of the type of its readings. -/
  typeName : String

/-- The parser for all texts of one type. -/
def ValueParser.forType (t : ReadType) (parse : String → Except String t.Carrier) : ValueParser where
  appliesTo t' _ := t' = t
  parse text := (parse text).map fun v => ⟨t, v⟩
  typeName := t.name

/-- Parsers in the order in which they are asked. -/
abbrev Registry := List ValueParser

/-- Reads a truth value, in any case. -/
def parseBool (text : String) : Except String Bool :=
  let word := (Text.trim text.toList).map Char.toLower
  if word = "true".toList then .ok true
  else if word = "false".toList then .ok false
  else .error ("Could not parse boolean value: " ++ text)

/-- Reads a binary number of 64 bits. -/
def parseF64 (text : String) : Except String Binary64 :=
  (readFloat .double text).map Binary64.ofWord |>.mapError FloatFault.message

/-- Reads a binary number of 32 bits. -/
def parseF32 (text : String) : Except String Binary32 :=
  (readFloat .single text).map Binary32.ofWord |>.mapError FloatFault.message

/-- Reads a date with its offset. -/
def parseOffset (text : String) : Except String DateTime :=
  (DateTime.read text).mapError DateTime.Fault.message

/-- Reads a duration. -/
def parseDuration (text : String) : Except String Duration :=
  (Duration.read text).mapError (Duration.Fault.message text)

/-- Reads a locale. -/
def parseLocale (tag : String) : Except String Locale :=
  (Locale.read tag).mapError (Locale.Fault.message tag)

/-- The parser for an integer type. -/
def ValueParser.forInt (kind : IntKind) : ValueParser :=
  .forType (.int kind) fun text => (kind.read text).mapError IntFault.message

/-- The parsers that every configuration starts with. -/
def Registry.builtins : Registry := [
  .forType .bool parseBool,
  .forInt .i8, .forInt .i16, .forInt .i32, .forInt .i64,
  .forInt .u8, .forInt .u16, .forInt .u32, .forInt .u64, .forInt .usize,
  .forType .f32 parseF32,
  .forType .f64 parseF64,
  .forType .decimal fun text => (Decimal.read text).mapError DecimalFault.message,
  .forType .offset parseOffset,
  .forType .instant fun text => (parseOffset text).map DateTime.toUniversal,
  .forType .duration parseDuration,
  .forType .locale parseLocale]

namespace Registry

/-- Reads the text that stands at `place` with the first parser that applies. -/
def parse (registry : Registry) (place : Path) (t : ReadType) (text : String) : Result t.Carrier :=
  let got := "string (" ++ Text.quoted text ++ ")"
  match registry.find? (·.appliesTo t text) with
  | none => .error ((Error.valueConversion place.text t.name got).withHelp
      ("Register a value parser for " ++ t.name))
  | some parser =>
    match parser.parse text with
    | .error cause => .error (.valueConversion place.text t.name (got ++ ": " ++ cause))
    | .ok reading =>
      match reading.as? t with
      | some v => .ok v
      | none => .error
          (.internal ("Parser for " ++ parser.typeName ++ " returned a value of another type"))

/-- Reads a scalar that stands at `place`. -/
def readScalar (registry : Registry) (place : Path) (t : ReadType) (s : Scalar) :
    Result t.Carrier :=
  match t.ofScalar? s with
  | some v => .ok v
  | none =>
    match s with
    | .literal (.string text) => registry.parse place t text
    | s => .error (.valueConversion place.text t.name s.describe)

/-- Reads a node that stands at `place`. -/
def read (registry : Registry) (place : Path) (t : ReadType) : Node → Result t.Carrier
  | .leaf s => registry.readScalar place t s
  | container =>
    match t.ofContainer? container with
    | some v => .ok v
    | none => .error (.valueConversion place.text t.name container.typeName)

/-- Reads elements that stand in a list at `place`, from position `i` on. The first that does not
convert is the error. -/
def readElements (registry : Registry) (place : Path) (t : ReadType) (i : Nat) :
    List Node → Result (List t.Carrier)
  | [] => .ok []
  | n :: rest => do
    let v ← registry.read (place.index i) t n
    let more ← readElements registry place t (i + 1) rest
    return v :: more

/-- Reads a list that stands at `place`. -/
def readList (registry : Registry) (place : Path) (t : ReadType) : Node → Result (List t.Carrier)
  | .list xs => registry.readElements place t 0 xs
  | other => .error (.valueConversion place.text ("list of " ++ t.name) other.typeName)

end Registry

end LayeredConfig
