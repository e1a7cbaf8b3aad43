import RecordFormula.Evaluation.Builtin
import RecordFormula.Call
import RecordFormula.Formula

/-! # Evaluation

A token list is evaluated in two passes: calls and names become values, from the left, and the row of
values and operators that remains is worked out. A call evaluates its arguments in turn, so an
evaluation contains others, one level deeper. `evaluateWithin` allows a number of levels; an argument
is shorter than the list its call is in, so as many levels as there are tokens are always enough, and
`evaluate` allows that many.
-/

namespace RecordFormula

/-- The value of a call, with the evaluator to use for its arguments. -/
def evaluateCall (eval : Evaluator) (call : Call) (ctx : Context) : Except EvalError Value :=
  match Catalog.standard.find? call.name with
  | none => .error (.unsupportedFunction call.name)
  | some spec => do
    spec.checkArity call.args.length
    spec.builtin.run eval call.args ctx

/-- The term of a token that starts no call. -/
def termOf (ctx : Context) : Token → Except EvalError Term
  | .number x => .ok (.value (.number x))
  | .text s => .ok (.value (.text s))
  | .field name =>
    if isReserved name then .error (.malformed (.unexpectedToken name))
    else do pure (.value (← ctx.fieldValue name))
  | .function name => .error (.malformed (.incomplete (.arguments name)))
  | .operator op => .ok (.operator op)

/-- The row of values and operators that a token list becomes. -/
def resolve (eval : Evaluator) (ctx : Context) : List Token → Except EvalError (List Term)
  | [] => .ok []
  | t :: ts =>
    if startsCall (t :: ts) then
      match _read : Call.read (t :: ts) with
      | .error reason => .error (.malformed reason)
      | .ok call => do
        let value ← evaluateCall eval call ctx
        let terms ← resolve eval ctx call.rest
        pure (.value value :: terms)
    else do
      let term ← termOf ctx t
      let terms ← resolve eval ctx ts
      pure (term :: terms)
termination_by ts => ts.length
decreasing_by
  · exact Call.rest_lt _read
  · simp

/-- One level of evaluation, with the evaluator to use one level deeper. -/
def evaluateLevel (eval : Evaluator) : Evaluator := fun ts ctx => do
  reduce (← resolve eval ctx ts)

/-- Evaluation in at most `levels` levels; `beyond` is asked for what lies deeper. -/
def evaluateWithin (beyond : Evaluator) : (levels : Nat) → Evaluator
  | 0 => beyond
  | levels + 1 => evaluateLevel (evaluateWithin beyond levels)

/-- The value of a token list. The levels are never used up, so what lies beyond them is never
asked. -/
def evaluate : Evaluator := fun ts ctx =>
  evaluateWithin (fun _ _ => .error (.malformed .empty)) (ts.length + 1) ts ctx

/-- The value of a token list as a number. -/
def evaluateNumber : List Token → Context → Except EvalError Float := Evaluator.number evaluate

/-- The value of a formula, with 0 for null. -/
def execute (formula : Formula) (ctx : Context) : Except EvalError Value :=
  (evaluate formula.tokens ctx).map Value.orZero

end RecordFormula
