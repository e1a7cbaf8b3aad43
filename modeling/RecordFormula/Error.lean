import RecordFormula.Operator
import RecordFormula.Value

/-! # Errors

Each stage fails with causes of its own, and `message` gives a cause its wording. An expression is
screened (`ScreenError`), read (`ParseError`) and evaluated (`EvalError`); a validation collects
`Problem`s and `Advice`; `FormulaError` is any failure of the whole way.
-/

namespace RecordFormula

/-- Why a text is refused before it is read. -/
inductive ScreenError where
  | tooLong (length max : Nat)
  | forbiddenPattern (name : String)
  | forbiddenCharacter (c : Char)
  | nestingTooDeep (depth max : Nat)
  | unbalancedParentheses
deriving DecidableEq, Repr

def ScreenError.message : ScreenError → String
  | .tooLong length max => s!"Expression is too long: {length} characters (max {max})"
  | .forbiddenPattern name => s!"Expression contains forbidden pattern: {name}"
  | .forbiddenCharacter c => s!"Expression contains forbidden character: '{c}'"
  | .nestingTooDeep depth max => s!"Parentheses nested too deeply: {depth} levels (max {max})"
  | .unbalancedParentheses => "Expression has unbalanced parentheses"

/-- What an expression lacks. -/
inductive Gap where
  | functionName
  | arguments (function : String)
  | firstOperand (op : Operator)
  | operandBefore (op : Operator)
  | operandBetween (op closing : Operator)
  | lastOperandAfter (op : Operator)
  | lastOperand
deriving DecidableEq, Repr

def Gap.message : Gap → String
  | .functionName => "missing function name"
  | .arguments function => s!"function {function} must be followed by '('"
  | .firstOperand op => s!"expression starts with '{op.text}'"
  | .operandBefore op => s!"missing operand before '{op.text}'"
  | .operandBetween op closing => s!"'{op.text}' before '{closing.text}'"
  | .lastOperandAfter op => s!"expression ends with '{op.text}'"
  | .lastOperand => "expression ends with an operator"

/-- What is wrong with a `WHERE` condition, or with having one. -/
inductive ConditionError where
  | outsideCall
  | outsideAggregate (function : String)
  | missingValue (function : String)
  | empty
  | expectedField (found : String)
  | expectedAnotherField
  | expectedComparator (field : String)
  | expectedLiteral (field : String) (op : Comparator)
  | textOrder (field : String) (op : Comparator)
  | trailing (found : String)
deriving DecidableEq, Repr

def ConditionError.message : ConditionError → String
  | .outsideCall => "WHERE is only allowed inside a function call"
  | .outsideAggregate function => s!"WHERE is only allowed in aggregate functions, not {function}"
  | .missingValue function => s!"{function} needs a value before WHERE"
  | .empty => "empty condition"
  | .expectedField found => s!"expected a field name, found '{found}'"
  | .expectedAnotherField => "expected a field name after AND"
  | .expectedComparator field => s!"expected a comparison operator after '{field}'"
  | .expectedLiteral field op => s!"expected a number or quoted string after '{field} {op.text}'"
  | .textOrder field op => s!"'{op.text}' cannot compare text on field '{field}'"
  | .trailing found => s!"unexpected '{found}' after comparison"

/-- Why a text or a token list is not an expression. -/
inductive ParseError where
  | empty
  | unbalancedParentheses
  | unterminatedText (offset : Nat)
  | splitComparator (op : Comparator)
  | emptyCall (function : String)
  | leadingComma (function : String)
  | trailingComma (function : String)
  | emptyArgument (function : String)
  | consecutiveOperators (first second : Operator)
  | incomplete (gap : Gap)
  | emptyGroup
  | unexpectedToken (found : String)
  | invalidCondition (reason : ConditionError)
deriving DecidableEq, Repr

def ParseError.message : ParseError → String
  | .empty => "Formula expression cannot be empty"
  | .unbalancedParentheses => "Unbalanced parentheses"
  | .unterminatedText offset => s!"Unterminated string literal starting at position {offset}"
  | .splitComparator op => s!"Comparison operator '{op.text}' must not contain whitespace"
  | .emptyCall function => s!"Function {function} called without arguments"
  | .leadingComma function => s!"Function {function} has a leading comma"
  | .trailingComma function => s!"Function {function} has a trailing comma"
  | .emptyArgument function => s!"Function {function} has an empty argument"
  | .consecutiveOperators first second =>
    s!"Consecutive operators '{first.text}' and '{second.text}'"
  | .incomplete gap => s!"Incomplete expression: {gap.message}"
  | .emptyGroup => "Empty parentheses"
  | .unexpectedToken found => s!"Unexpected token '{found}'"
  | .invalidCondition reason => s!"Invalid WHERE condition: {reason.message}"

/-- How many arguments a function takes. Without a maximum there is no upper bound. -/
structure Arity where
  min : Nat
  max : Option Nat
deriving DecidableEq, Repr

/-- Whether a number of arguments is right. -/
def Arity.accepts (arity : Arity) (count : Nat) : Bool :=
  decide (arity.min ≤ count) && arity.max.all fun max => decide (count ≤ max)

def Arity.text (arity : Arity) : String :=
  let min := arity.min
  match arity.max with
  | none => s!"at least {min}"
  | some max =>
    if max = min then s!"exactly {max}"
    else if min = 0 then s!"at most {max}"
    else s!"between {min} and {max}"

/-- Why values do not fit together. -/
inductive TypeMismatch where
  | notANumber (value : Value)
  | incomparable (op : Comparator) (left right : Value)
deriving BEq, Repr

def TypeMismatch.message : TypeMismatch → String
  | .notANumber value => s!"'{value.display}' is not a number"
  | .incomparable op left right =>
    s!"cannot compare {left.typeName} '{left.display}' with {right.typeName} '{right.display}'" ++
      s!" using '{op.text}'"

/-- What is wrong with the value of an argument. -/
inductive ArgumentError where
  | wildcard
  | window (size : Float)
deriving BEq, Repr

def ArgumentError.message : ArgumentError → String
  | .wildcard => "expects a value expression, not '*'"
  | .window size => s!"window must be a positive integer, got {Number.display size}"

/-- Why an evaluation has no value. -/
inductive EvalError where
  | divisionByZero
  | unsupportedFunction (name : String)
  | typeMismatch (reason : TypeMismatch)
  | missingField (name : String)
  | noRecordContext (name : String)
  | argumentCount (function : String) (expected : Arity) (actual : Nat)
  | invalidArgument (function : String) (reason : ArgumentError)
  | malformed (reason : ParseError)
deriving BEq, Repr

def EvalError.message : EvalError → String
  | .divisionByZero => "Division by zero"
  | .unsupportedFunction name => s!"Unsupported function: {name}"
  | .typeMismatch reason => s!"Type mismatch: {reason.message}"
  | .missingField name => s!"Missing field: {name}"
  | .noRecordContext name =>
    s!"Field '{name}' referenced outside an aggregate function while evaluating a record list"
  | .argumentCount function expected actual =>
    s!"Wrong number of arguments for {function}: expected {expected.text}, got {actual}"
  | .invalidArgument function reason => s!"Invalid argument for {function}: {reason.message}"
  | .malformed reason => reason.message

/-- Why an expression is not valid. -/
inductive Problem where
  | screen (reason : ScreenError)
  | parse (reason : ParseError)
  | unknownField (name : String)
  | tooManyTokens (count max : Nat)
  | tooManyFields (count max : Nat)
  | call (reason : EvalError)
deriving BEq, Repr

def Problem.message : Problem → String
  | .screen reason => reason.message
  | .parse reason => reason.message
  | .unknownField name => s!"Field '{name}' does not exist in product schema"
  | .tooManyTokens count max => s!"Formula is too complex: {count} tokens (max {max})"
  | .tooManyFields count max => s!"Formula references too many fields: {count} (max {max})"
  | .call reason => reason.message

/-- What a valid expression could do better. -/
inductive Advice where
  | manyTokens (count : Nat)
  | deepNesting (depth : Nat)
  | manyFields (count : Nat)
  | repeatedFunction (name : String) (count : Nat)
deriving DecidableEq, Repr

def Advice.message : Advice → String
  | .manyTokens count => s!"Formula is complex: {count} tokens; consider splitting it"
  | .deepNesting depth => s!"Parentheses are nested {depth} levels deep; consider simplifying"
  | .manyFields count => s!"Formula references {count} distinct fields"
  | .repeatedFunction name count =>
    s!"Function {name} is used {count} times; consider simplifying the formula"

/-- Any failure on the way from a text to a value. -/
inductive FormulaError where
  | screen (reason : ScreenError)
  | parse (reason : ParseError)
  | evaluation (reason : EvalError)
  | invalid (problems : List Problem)
deriving BEq, Repr

def FormulaError.message : FormulaError → String
  | .screen reason => s!"Security error: {reason.message}"
  | .parse reason => s!"Parse error: {reason.message}"
  | .evaluation reason => s!"Evaluation error: {reason.message}"
  | .invalid problems =>
    "Invalid formula: " ++ String.intercalate "; " (problems.map Problem.message)

end RecordFormula
