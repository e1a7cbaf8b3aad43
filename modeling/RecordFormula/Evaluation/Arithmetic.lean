import RecordFormula.Error
import RecordFormula.Text.Case

/-! # Arithmetic

Once names and calls have become values, an expression is a row of values and operators. `reduce`
works out its value: the innermost parentheses first, from the left, and in a row without parentheses
the signs, then `* /`, then `+ -`, then the comparisons, each level from the left. Signs belong to the
operand behind them, so `- 2 * 3` negates 2 first.
-/

namespace RecordFormula

/-- A value or an operator. -/
inductive Term where
  | value (v : Value)
  | operator (op : Operator)
deriving BEq, Repr

/-- The value as a number for arithmetic, which reads null as 0. -/
def Value.toNumber (value : Value) : Except EvalError Float :=
  match value with
  | .null => .ok 0
  | value =>
    match value.number? with
    | some x => .ok x
    | none => .error (.typeMismatch (.notANumber value))

/-- The order of two values: as numbers if both are numeric, without regard to letter case if both
are texts, and otherwise as numbers with 0 for null. -/
def Value.order? (left right : Value) : Option Ordering :=
  match left.number?, right.number? with
  | some x, some y => Number.order? x y
  | _, _ =>
    match left, right with
    | .text s, .text t => some (compare (Text.lowercase s) (Text.lowercase t))
    | _, _ =>
      match left.toNumber, right.toNumber with
      | .ok x, .ok y => Number.order? x y
      | _, _ => none

/-- A comparison of two values. Values without an order are unequal. -/
def compareValues (op : Comparator) (left right : Value) : Except EvalError Value :=
  match left.order? right with
  | some order => .ok (.boolean (op.test order))
  | none =>
    if op.isEquality then .ok (.boolean (op == .notEqual))
    else .error (.typeMismatch (.incomparable op left right))

/-- An operator between two operands. -/
inductive BinaryOp where
  | add | subtract | multiply | divide
  | compare (op : Comparator)
deriving DecidableEq, Repr

namespace BinaryOp

/-- How tightly the operator binds. -/
def level : BinaryOp → Nat
  | .multiply | .divide => 2
  | .add | .subtract => 1
  | .compare _ => 0

/-- The operator that a single character stands for between operands. -/
def ofOperator? : Operator → Option BinaryOp
  | .plus => some .add
  | .minus => some .subtract
  | .star => some .multiply
  | .slash => some .divide
  | .equal => some (.compare .equal)
  | .greater => some (.compare .greater)
  | .less => some (.compare .less)
  | _ => none

/-- The value of an operation. Division looks at its right side first. -/
def apply (op : BinaryOp) (left right : Value) : Except EvalError Value :=
  match op with
  | .add => do pure (.number ((← left.toNumber) + (← right.toNumber)))
  | .subtract => do pure (.number ((← left.toNumber) - (← right.toNumber)))
  | .multiply => do pure (.number ((← left.toNumber) * (← right.toNumber)))
  | .divide => do
    let divisor ← right.toNumber
    if divisor == 0 then throw .divisionByZero
    pure (.number ((← left.toNumber) / divisor))
  | .compare op => compareValues op left right

end BinaryOp

/-- An operator and its right side. -/
abbrev Step := BinaryOp × Value

/-- The signs in front of an operand, as whether they negate it, and the terms behind them. -/
def takeSigns (negate : Bool) : List Term → Bool × List Term
  | .operator .plus :: ts => takeSigns negate ts
  | .operator .minus :: ts => takeSigns (!negate) ts
  | ts => (negate, ts)

/-- A value, negated or as it is. Only negation asks for a number. -/
def Value.withSign (negate : Bool) (value : Value) : Except EvalError Value :=
  if negate then do pure (.number (-(← value.toNumber))) else .ok value

/-- The operand at the head of a row, with its signs, and the terms behind it. -/
def readOperand (ts : List Term) : Except EvalError (Value × List Term) :=
  match takeSigns false ts with
  | (negate, .value value :: rest) => (value.withSign negate).map (·, rest)
  | (_, .operator op :: _) => .error (.malformed (.incomplete (.operandBefore op)))
  | (_, []) => .error (.malformed (.incomplete .lastOperand))

/-- The comparison that an operator is together with the next term, if that is an operator too. -/
def pair? (op : Operator) : List Term → Option (Comparator × List Term)
  | .operator second :: rest => (Comparator.ofPair? op second).map (·, rest)
  | _ => none

/-- The operation that an operator stands for, and the terms behind it. -/
def readOperator (op : Operator) (ts : List Term) : Except EvalError (BinaryOp × List Term) :=
  match pair? op ts with
  | some (comparator, rest) => .ok (.compare comparator, rest)
  | none =>
    match BinaryOp.ofOperator? op with
    | some binary => .ok (binary, ts)
    | none => .error (.malformed (.unexpectedToken op.text))

theorem length_takeSigns_le (negate : Bool) (ts : List Term) :
    (takeSigns negate ts).2.length ≤ ts.length := by
  fun_induction takeSigns negate ts <;> simp_all <;> omega

theorem length_of_readOperand {ts rest : List Term} {value : Value}
    (found : readOperand ts = .ok (value, rest)) : rest.length < ts.length := by
  have signs := length_takeSigns_le false ts
  unfold readOperand at found
  split at found
  · rename_i negate operand rest' taken
    rw [taken, List.length_cons] at signs
    cases signed : operand.withSign negate <;> simp [signed, Except.map] at found
    rw [← found.2]
    omega
  · simp at found
  · simp at found

theorem length_of_pair? {op : Operator} {ts rest : List Term} {comparator : Comparator}
    (found : pair? op ts = some (comparator, rest)) : rest.length < ts.length := by
  unfold pair? at found
  split at found <;> simp at found
  obtain ⟨_, _, _, rfl⟩ := found
  simp

theorem length_of_readOperator {op : Operator} {ts rest : List Term} {binary : BinaryOp}
    (found : readOperator op ts = .ok (binary, rest)) : rest.length ≤ ts.length := by
  unfold readOperator at found
  split at found
  · rename_i paired
    have := length_of_pair? paired
    simp at found
    rw [← found.2]
    omega
  · split at found <;> simp at found
    simp [← found.2]

/-- A row without parentheses as its first operand and the steps behind it. -/
def readSteps (ts : List Term) : Except EvalError (Value × List Step) :=
  match _first : readOperand ts with
  | .error reason => .error reason
  | .ok (value, []) => .ok (value, [])
  | .ok (_, .value next :: _) => .error (.malformed (.unexpectedToken next.display))
  | .ok (value, .operator op :: rest) =>
    match _second : readOperator op rest with
    | .error reason => .error reason
    | .ok (binary, rest) =>
      match readSteps rest with
      | .error reason => .error reason
      | .ok (next, steps) => .ok (value, (binary, next) :: steps)
termination_by ts.length
decreasing_by
  have := length_of_readOperand _first
  have := length_of_readOperator _second
  simp only [List.length_cons] at *
  omega

/-- Carries out the steps of one level, from the left; the others stay. -/
def collapse (level : Nat) (left : Value) : List Step → Except EvalError (Value × List Step)
  | [] => .ok (left, [])
  | (op, right) :: steps =>
    if op.level = level then do
      let value ← op.apply left right
      collapse level value steps
    else do
      let (right, steps) ← collapse level right steps
      pure (left, (op, right) :: steps)

/-- The value of a row without parentheses. -/
def reduceFlat (ts : List Term) : Except EvalError Value :=
  if ts.isEmpty then .error (.malformed .empty)
  else do
    let (value, steps) ← readSteps ts
    let (value, steps) ← collapse 2 value steps
    let (value, steps) ← collapse 1 value steps
    let (value, _) ← collapse 0 value steps
    pure value

/-- The value of the rest of a row. `outer` are the rows in which parentheses were opened, innermost
first, each up to its parenthesis, and `row` is what came since. -/
def reduceFrom (outer : List (List Term)) (row : List Term) : List Term → Except EvalError Value
  | [] => if outer.isEmpty then reduceFlat row else .error (.malformed .unbalancedParentheses)
  | .operator .leftParen :: ts => reduceFrom (row :: outer) [] ts
  | .operator .rightParen :: ts =>
    match outer with
    | [] => .error (.malformed .unbalancedParentheses)
    | before :: outer =>
      if row.isEmpty then .error (.malformed .emptyGroup)
      else do
        let value ← reduceFlat row
        reduceFrom outer (before ++ [.value value]) ts
  | t :: ts => reduceFrom outer (row ++ [t]) ts

/-- The value of a row of values and operators. -/
def reduce (ts : List Term) : Except EvalError Value := reduceFrom [] [] ts

end RecordFormula
