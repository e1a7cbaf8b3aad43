import RecordFormula.Number.Display
import RecordFormula.Number.Numeral

/-! # Field values

What a record holds under a field name: nothing, a number or a text. Records loaded from delimited
files keep every column as text, so a text that is a finite numeral also counts as that number.
-/

namespace RecordFormula

/-- A value stored in a record. -/
inductive FieldValue where
  | null
  | number (x : Float)
  | text (s : String)
deriving BEq, Repr, Inhabited

namespace FieldValue

/-- The value as a number, if it is one or reads as one. -/
def number? : FieldValue → Option Float
  | .null => none
  | .number x => some x
  | .text s => Number.ofText s

/-- The value as a text, if it is one. -/
def text? : FieldValue → Option String
  | .text s => some s
  | _ => none

def isNull : FieldValue → Bool
  | .null => true
  | _ => false

/-- The value as it is shown. -/
def display : FieldValue → String
  | .null => ""
  | .number x => Number.display x
  | .text s => s

/-- A whole number, rounded to the nearest double. -/
def ofInt (n : Int) : FieldValue := .number (Float.ofInt n)

end FieldValue

end RecordFormula
