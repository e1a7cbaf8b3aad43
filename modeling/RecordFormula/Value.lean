import RecordFormula.FieldValue

/-! # Values

What a formula computes: a number, a text, a truth value or null. Null is a field without a value
before arithmetic reads it as 0; it is no number, so aggregates pass over it.
-/

namespace RecordFormula

/-- A value during evaluation. -/
inductive Value where
  | number (x : Float)
  | text (s : String)
  | boolean (b : Bool)
  | null
deriving BEq, Repr, Inhabited

namespace Value

/-- The value of a field. -/
def ofField : FieldValue → Value
  | .null => .null
  | .number x => .number x
  | .text s => .text s

/-- The value as a number: truth values are 1 and 0, and a text is what it reads as. -/
def number? : Value → Option Float
  | .number x => some x
  | .boolean b => some (if b then 1 else 0)
  | .text s => Number.ofText s
  | .null => none

/-- Whether a condition with this value holds. Any numeral counts here, an infinite one too; a text
that is no numeral holds unless it is empty. -/
def isTruthy : Value → Bool
  | .boolean b => b
  | .number x => x != 0
  | .text s =>
    match Number.readNumeral (Text.trim s.toList) with
    | some x => x != 0
    | none => !s.isEmpty
  | .null => false

def isNull : Value → Bool
  | .null => true
  | _ => false

/-- The value with 0 in place of null. -/
def orZero : Value → Value
  | .null => .number 0
  | value => value

/-- The value as it is shown. -/
def display : Value → String
  | .number x => Number.plain x
  | .text s => s
  | .boolean true => "TRUE"
  | .boolean false => "FALSE"
  | .null => ""

/-- The name of the value's type. -/
def typeName : Value → String
  | .number _ => "number"
  | .text _ => "text"
  | .boolean _ => "boolean"
  | .null => "null"

end Value

end RecordFormula
