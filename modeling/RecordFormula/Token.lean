import RecordFormula.Catalog

/-! # Tokens

The lexical units of an expression. A word is a function of the catalog, a number or a field name;
the keywords `WHERE` and `AND` are field names as far as tokens go, and are told apart where they
mean something.
-/

namespace RecordFormula

/-- A lexical unit. -/
inductive Token where
  | number (x : Float)
  /-- A quoted text, without its quotes. -/
  | text (s : String)
  /-- A field name or a keyword, as written. -/
  | field (name : String)
  /-- A function of the catalog, with its ASCII letters in upper case. -/
  | function (name : String)
  | operator (op : Operator)
deriving BEq, Repr

/-- The keyword before a condition. -/
def whereWord : String := "WHERE"

/-- The keyword between the comparisons of a condition. -/
def andWord : String := "AND"

/-- Whether a word is a keyword and so never a field name. -/
def isReserved (word : String) : Bool :=
  Text.asciiUpper word == whereWord || Text.asciiUpper word == andWord

namespace Token

/-- The token as it is shown. -/
def display : Token → String
  | .number x => Number.plain x
  | .text s => "\"" ++ s ++ "\""
  | .field name => name
  | .function name => name
  | .operator op => op.text

/-- The operator that a token is. -/
def operator? : Token → Option Operator
  | .operator op => some op
  | _ => none

/-- Whether a token is a keyword, in any case of its ASCII letters. -/
def isKeyword (keyword : String) : Token → Bool
  | .field name => Text.asciiUpper name == keyword
  | _ => false

def isWhere : Token → Bool := isKeyword whereWord

def isAnd : Token → Bool := isKeyword andWord

/-- Whether a token can name a call: a function, or a field name that is no keyword. -/
def isCallName : Token → Bool
  | .function _ => true
  | .field name => !isReserved name
  | _ => false

end Token

/-- The deepest nesting of the parentheses in a token list that starts `depth` levels down, or the
`deepest` level before it. Unbalanced parentheses have none. -/
def tokenNestingFrom (depth deepest : Nat) : List Token → Option Nat
  | [] => if depth = 0 then some deepest else none
  | .operator .leftParen :: ts => tokenNestingFrom (depth + 1) (max deepest (depth + 1)) ts
  | .operator .rightParen :: ts =>
    if depth = 0 then none else tokenNestingFrom (depth - 1) deepest ts
  | _ :: ts => tokenNestingFrom depth deepest ts

/-- The deepest nesting of the parentheses in a token list, if they are balanced. -/
def tokenNesting (ts : List Token) : Option Nat := tokenNestingFrom 0 0 ts

/-- Whether each parenthesis of a token list has its partner. -/
def parensBalanced (ts : List Token) : Bool := (tokenNesting ts).isSome

end RecordFormula
