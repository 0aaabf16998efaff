import LayeredConfig.Number.FloatText

/-!
# Scalars

What a leaf of a configuration tree holds: a literal, or an expression whose references are not
resolved yet. An expression is a template text together with its segments, and a segment is fixed or
refers to other leaves by an ordered list of alternatives.

Equality is structural everywhere: floats are equal if all their bits are, so a NaN equals itself.
-/

namespace LayeredConfig

/-- A plain value. -/
inductive Literal where
  | bool (value : Bool)
  | integer (value : Int64)
  | float (value : Number.Binary64)
  | string (value : String)
deriving DecidableEq, Repr

/-- The name of the type of a literal in messages. -/
def Literal.typeName : Literal → String
  | .bool _ => "boolean"
  | .integer _ => "integer"
  | .float _ => "float"
  | .string _ => "string"

/-- The text of a literal. -/
def Literal.display : Literal → String
  | .bool value => if value then "true" else "false"
  | .integer value => toString value.toInt
  | .float value => value.display
  | .string value => value

/-- One piece of a template. -/
inductive Segment where
  /-- Text of the template, or the value that a reference was replaced by. -/
  | fixed (value : Literal)
  /-- A reference: the text between its braces, and the paths to try in order. The last one of several
  is a text to fall back to. -/
  | reference (source : String) (alternatives : List String)
deriving DecidableEq, Repr

/-- Is the segment fixed? -/
def Segment.isFixed : Segment → Bool
  | .fixed _ => true
  | .reference _ _ => false

/-- The value of a fixed segment. -/
def Segment.value? : Segment → Option Literal
  | .fixed value => some value
  | .reference _ _ => none

/-- A template with its segments. The text stays the one that was read, also when references have been
replaced, and identifies the expression where cycles are looked for. -/
structure Expression where
  template : String
  segments : List Segment
deriving DecidableEq, Repr

/-- Is every segment fixed? -/
def Expression.isFixed (e : Expression) : Bool :=
  e.segments.all Segment.isFixed

/-- The value of segments that are all fixed. A single one keeps its type, and several are joined as
texts. -/
def collapse : List Literal → Literal
  | [value] => value
  | values => .string (String.join (values.map Literal.display))

/-- The value of an expression, unless a reference is left. -/
def Expression.value? (e : Expression) : Option Literal :=
  if e.isFixed then some (collapse (e.segments.filterMap Segment.value?)) else none

/-- What a leaf holds. -/
inductive Scalar where
  | literal (value : Literal)
  | expression (value : Expression)
deriving DecidableEq, Repr

namespace Scalar

instance : Coe Literal Scalar := ⟨.literal⟩

/-- Does the leaf hold an expression? -/
def isExpression : Scalar → Bool
  | .literal _ => false
  | .expression _ => true

/-- The name of the type of a scalar in messages. -/
def typeName : Scalar → String
  | .literal value => value.typeName
  | .expression _ => "expression"

/-- The plain value of a scalar. An expression stands for its template. -/
def plain : Scalar → Literal
  | .literal value => value
  | .expression e => .string e.template

/-- The text of a scalar. -/
def display (s : Scalar) : String :=
  s.plain.display

/-- Type and text, for messages about conversions. -/
def describe (s : Scalar) : String :=
  s.typeName ++ " (" ++ s.display ++ ")"

end Scalar

/-- The scalar that an expression amounts to: its value, or itself while a reference is left. -/
def Expression.toScalar (e : Expression) : Scalar :=
  match e.value? with
  | some value => .literal value
  | none => .expression e

end LayeredConfig
