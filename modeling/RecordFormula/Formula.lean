import RecordFormula.Structure
import RecordFormula.Screen
import RecordFormula.Token.Lexer

/-! # Formulas

A formula is an expression that passed the screen, with the well-formed tokens it was read as. `parse`
stops at the first thing that is wrong: the screen, then the tokens, then the structure.
-/

namespace RecordFormula

/-- The names of the fields that a token list reads, as often as it reads them. Keywords and the
names of calls are none. -/
def fieldNames : List Token → List String
  | [] => []
  | .field name :: ts =>
    if !isReserved name && !startsCall (.field name :: ts) then name :: fieldNames ts
    else fieldNames ts
  | _ :: ts => fieldNames ts

/-- The distinct names of the fields that a token list reads. -/
def fieldReferences (ts : List Token) : List String := (fieldNames ts).eraseDups

/-- An expression that has been read. -/
structure Formula where
  expression : String
  tokens : List Token
deriving BEq, Repr

namespace Formula

/-- The distinct names of the fields that the formula reads. -/
def fields (formula : Formula) : List String := fieldReferences formula.tokens

/-- Whether the formula reads a field of this name. -/
def references (formula : Formula) (name : String) : Bool := formula.fields.contains name

/-- The calls in the formula. -/
def calls (formula : Formula) : List CallSite := callSites formula.tokens

end Formula

/-- Whether a text has nothing but blanks. -/
def isBlankText (expression : String) : Bool := expression.toList.all Text.isBlank

/-- Reads an expression. -/
def parse (limits : Limits) (expression : String) : Except FormulaError Formula :=
  if isBlankText expression then .error (.parse .empty)
  else
    match screen limits expression with
    | .error reason => .error (.screen reason)
    | .ok () =>
      match tokenize expression with
      | .error reason => .error (.parse reason)
      | .ok tokens =>
        match structuralErrors tokens with
        | reason :: _ => .error (.parse reason)
        | [] => .ok { expression, tokens }

end RecordFormula
