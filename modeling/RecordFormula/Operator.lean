/-! # Operators

The eleven characters that stand for themselves as tokens, and the six comparisons. Three comparisons
are written with two characters, which are two tokens.
-/

namespace RecordFormula

/-- A character that is a token of its own. -/
inductive Operator where
  | plus | minus | star | slash | leftParen | rightParen | comma | dot | greater | less | equal
deriving DecidableEq, Repr

namespace Operator

/-- The operator that a character stands for. -/
def ofChar? : Char → Option Operator
  | '+' => some .plus
  | '-' => some .minus
  | '*' => some .star
  | '/' => some .slash
  | '(' => some .leftParen
  | ')' => some .rightParen
  | ',' => some .comma
  | '.' => some .dot
  | '>' => some .greater
  | '<' => some .less
  | '=' => some .equal
  | _ => none

/-- The character an operator is written as. -/
def char : Operator → Char
  | .plus => '+'
  | .minus => '-'
  | .star => '*'
  | .slash => '/'
  | .leftParen => '('
  | .rightParen => ')'
  | .comma => ','
  | .dot => '.'
  | .greater => '>'
  | .less => '<'
  | .equal => '='

/-- The operator as text. -/
def text (op : Operator) : String := op.char.toString

/-- Plus and minus, which may also be signs. -/
def isSign : Operator → Bool
  | .plus | .minus => true
  | _ => false

@[simp] theorem ofChar?_char (op : Operator) : ofChar? op.char = some op := by cases op <;> rfl

theorem ofChar?_eq_some {c : Char} {op : Operator} (h : ofChar? c = some op) : c = op.char := by
  unfold ofChar? at h
  split at h <;> simp only [Option.some.injEq, reduceCtorEq] at h <;> exact h ▸ rfl

end Operator

/-- A comparison. -/
inductive Comparator where
  | equal | notEqual | less | lessEqual | greater | greaterEqual
deriving DecidableEq, Repr

namespace Comparator

/-- How a comparison is written. -/
def text : Comparator → String
  | .equal => "="
  | .notEqual => "<>"
  | .less => "<"
  | .lessEqual => "<="
  | .greater => ">"
  | .greaterEqual => ">="

/-- Whether an order satisfies the comparison. -/
def test : Comparator → Ordering → Bool
  | .equal, o => o == .eq
  | .notEqual, o => o != .eq
  | .less, o => o == .lt
  | .lessEqual, o => o != .gt
  | .greater, o => o == .gt
  | .greaterEqual, o => o != .lt

/-- `=` and `<>`, which every pair of values has an answer to. -/
def isEquality : Comparator → Bool
  | .equal | .notEqual => true
  | _ => false

/-- The comparison that two operators in a row are, if they are one. -/
def ofPair? : Operator → Operator → Option Comparator
  | .greater, .equal => some .greaterEqual
  | .less, .equal => some .lessEqual
  | .less, .greater => some .notEqual
  | _, _ => none

/-- The comparison that one operator is. -/
def ofOperator? : Operator → Option Comparator
  | .equal => some .equal
  | .greater => some .greater
  | .less => some .less
  | _ => none

end Comparator

end RecordFormula
