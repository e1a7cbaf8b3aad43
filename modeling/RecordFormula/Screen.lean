import RecordFormula.Screen.Signature
import RecordFormula.Error
import RecordFormula.Limits

/-! # Screening

Expressions are written by users and are not trusted. Before one is read it is screened for its
length, for code signatures, for characters outside a short list, and for the nesting of its
parentheses. Screening works on the text alone, so quotes are followed here too: parentheses in a
quoted text do not count.
-/

namespace RecordFormula

/-- The characters that may stand in an expression besides ASCII letters, digits and blanks. -/
def allowedSymbols : List Char :=
  ['+', '-', '*', '/', '(', ')', ',', '.', '>', '<', '=', '_', '"', '\'']

/-- Whether a character may stand in an expression. -/
def isAllowedChar (c : Char) : Bool :=
  c.isAlphanum || Text.isBlank c || allowedSymbols.contains c

/-- The deepest nesting of the parentheses in a text that starts `depth` levels down, inside a text
in quotes `quote` if there is one, or the `deepest` level before it. -/
def nestingFrom (depth deepest : Nat) (quote : Option Char) : List Char → Option Nat
  | [] => if depth = 0 then some deepest else none
  | c :: cs =>
    match quote with
    | some q => nestingFrom depth deepest (if c = q then none else some q) cs
    | none =>
      if c = '"' ∨ c = '\'' then nestingFrom depth deepest (some c) cs
      else if c = '(' then nestingFrom (depth + 1) (max deepest (depth + 1)) none cs
      else if c = ')' then if depth = 0 then none else nestingFrom (depth - 1) deepest none cs
      else nestingFrom depth deepest none cs

/-- The deepest nesting of the parentheses in an expression, if they are balanced. -/
def nestingDepth (expression : String) : Option Nat := nestingFrom 0 0 none expression.toList

/-- What is wrong with the nesting of an expression. -/
def nestingErrors (limits : Limits) (expression : String) : List ScreenError :=
  match nestingDepth expression with
  | none => [.unbalancedParentheses]
  | some depth =>
    if limits.maxNesting < depth then [.nestingTooDeep depth limits.maxNesting] else []

/-- Everything that screening finds in an expression: its length, signatures in their order, the
first character that is not allowed, the nesting. -/
def screenErrors (limits : Limits) (expression : String) : List ScreenError :=
  let cs := expression.toList
  let lengthErrors :=
    if limits.maxLength < cs.length then [.tooLong cs.length limits.maxLength] else []
  let signatureErrors :=
    (Screen.signatures.filter (·.occursIn cs)).map fun signature => .forbiddenPattern signature.name
  let characterErrors :=
    ((cs.find? fun c => !isAllowedChar c).map ScreenError.forbiddenCharacter).toList
  lengthErrors ++ signatureErrors ++ characterErrors ++ nestingErrors limits expression

/-- Refuses an expression with the first thing that screening finds. -/
def screen (limits : Limits) (expression : String) : Except ScreenError Unit :=
  match screenErrors limits expression with
  | [] => .ok ()
  | error :: _ => .error error

end RecordFormula
