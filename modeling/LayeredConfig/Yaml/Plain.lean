import LayeredConfig.Number.FloatText
import LayeredConfig.Scalar

/-!
# Plain scalars in YAML documents

What a scalar without quotes stands for: nothing, a truth value, an integer in one of four bases, a
float, or a string. Whoever writes a document needs the same rule to know which strings to quote.
-/

namespace LayeredConfig.Yaml

open LayeredConfig.Number

/-- What a plain scalar stands for. -/
inductive Plain where
  | null
  | bool (value : Bool)
  | integer (value : Int)
  | float (value : Binary64)
  | string
deriving DecidableEq, Repr

/-- The value of a digit in a base up to sixteen. -/
def digitValue? (base : Nat) (c : Char) : Option Nat :=
  let value? :=
    if c.isDigit then some (c.toNat - '0'.toNat)
    else if 'a' ≤ c.toLower && c.toLower ≤ 'f' then some (c.toLower.toNat - 'a'.toNat + 10)
    else none
  value?.filter (· < base)

/-- The number written with one or more digits of a base. -/
def inBase? (base : Nat) (digits : List Char) : Option Nat :=
  if digits.isEmpty then none
  else digits.foldlM (fun n c => (digitValue? base c).map (base * n + ·)) 0

/-- The number written with the mark of its base in front. -/
def marked? : List Char → Option Nat
  | '0' :: 'x' :: digits => inBase? 16 digits
  | '0' :: 'o' :: digits => inBase? 8 digits
  | '0' :: 'b' :: digits => inBase? 2 digits
  | _ => none

/-- Several digits that start with zero are a string, with or without a sign. -/
def hasLeadingZero (cs : List Char) : Bool :=
  match cs with
  | '-' :: '0' :: rest | '+' :: '0' :: rest | '0' :: rest => !rest.isEmpty && rest.all Char.isDigit
  | _ => false

/-- The integers below are integers of a document, unless they have no mark and are floats. -/
def wideLimit : Nat := Nat.pow 2 128

/-- The integers down to here are integers of a document. -/
def wideDepth : Nat := Nat.pow 2 127

/-- The integer that a plain scalar stands for. -/
def integer? (cs : List Char) : Option Int :=
  let (negative, digits) := takeSign cs
  let magnitude? := match marked? digits with
    | some n => some n
    | none => if hasLeadingZero cs then none else inBase? 10 digits
  magnitude?.bind fun n =>
    if negative then (if n ≤ wideDepth then some (-n) else none)
    else if n < wideLimit then some n else none

/-- The float that a plain scalar stands for. One that is too large is none. -/
def float? (cs : List Char) : Option Binary64 :=
  let text := String.ofList cs
  let unsigned := match cs with
    | '+' :: '+' :: _ | '+' :: '-' :: _ => []
    | '+' :: rest => rest
    | cs => cs
  if [".inf", ".Inf", ".INF"].contains (String.ofList unsigned) then
    some (.ofWord Format.double.infinity)
  else if ["-.inf", "-.Inf", "-.INF"].contains text then
    some (.ofWord (Format.double.signBit + Format.double.infinity))
  else if [".nan", ".NaN", ".NAN"].contains text then some .nan
  else match readFloat .double (String.ofList unsigned) with
    | .error _ => none
    | .ok word =>
      match Format.double.unpack word with
      | .finite _ _ _ => some (.ofWord word)
      | _ => none

/-- What a plain scalar stands for. -/
def plain (text : String) : Plain :=
  let cs := text.toList
  if ["", "null", "Null", "NULL", "~"].contains text then .null
  else if ["true", "True", "TRUE"].contains text then .bool true
  else if ["false", "False", "FALSE"].contains text then .bool false
  else match integer? cs with
    | some n => .integer n
    | none =>
      if hasLeadingZero cs then .string
      else match float? cs with
        | some x => .float x
        | none => .string

end LayeredConfig.Yaml
