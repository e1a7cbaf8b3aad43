import RecordFormula.Evaluation.Aggregate
import RecordFormula.Number.Sum

/-! # Built-in functions

What each built-in function computes. Functions get their arguments as token lists: aggregates work
theirs out for each record, and `IF` works out only the branch it takes. The ratio functions are 0
where their denominator is 0. Each function asks for its arguments one by one, so that calling it
without the check of its arity still has an answer.
-/

namespace RecordFormula

namespace Builtin

/-- The name that a function's own errors mention. -/
def name : Builtin → String
  | .sum => "SUM"
  | .average => "AVG"
  | .count => "COUNT"
  | .minimum => "MIN"
  | .maximum => "MAX"
  | .movingAverage => "MOVING_AVG"
  | .choose => "IF"
  | .ratio => "RATIO"
  | .percentage => "PERCENTAGE"
  | .growthRate => "GROWTH_RATE"

/-- An argument of a call. -/
def argument (builtin : Builtin) (args : List (List Token)) (index : Nat) :
    Except EvalError (List Token) :=
  match args[index]? with
  | some arg => .ok arg
  | none => .error (.argumentCount builtin.name ⟨index + 1, none⟩ args.length)

/-- The numbers of an aggregate, reduced. -/
def reduceNumbers (eval : Evaluator) (builtin : Builtin) (reduction : List Float → Float)
    (args : List (List Token)) (ctx : Context) : Except EvalError Value := do
  let arg ← AggregateArgument.parse (← builtin.argument args 0)
  pure (.number (reduction (← arg.numbers eval builtin.name ctx)))

/-- The number of records or values. Without an argument every record counts. -/
def runCount (eval : Evaluator) (args : List (List Token)) (ctx : Context) :
    Except EvalError Value :=
  match args with
  | [] => .ok (.number (Float.ofNat ctx.data.size))
  | arg :: _ => do
    let arg ← AggregateArgument.parse arg
    pure (.number (Float.ofNat (← arg.count eval ctx)))

/-- The whole number of values that a window holds. -/
def window? (size : Float) : Option Nat :=
  if Number.isIntegral size && decide (1 ≤ size) then some (Number.wholePart size) else none

/-- The mean of the last numbers, 0 if there are fewer than the window holds. -/
def meanOfLast (window : Nat) (xs : List Float) : Float :=
  if xs.length < window then 0 else Number.mean (xs.drop (xs.length - window))

/-- The mean over a window at the end of the records. -/
def runMovingAverage (eval : Evaluator) (args : List (List Token)) (ctx : Context) :
    Except EvalError Value := do
  let arg ← AggregateArgument.parse (← argument .movingAverage args 0)
  let size ← eval.number (← argument .movingAverage args 1) ctx
  match window? size with
  | none => throw (.invalidArgument movingAverage.name (.window size))
  | some window => pure (.number (meanOfLast window (← arg.numbers eval movingAverage.name ctx)))

/-- The branch that a condition selects. -/
def runChoose (eval : Evaluator) (args : List (List Token)) (ctx : Context) :
    Except EvalError Value := do
  let condition ← eval (← argument .choose args 0) ctx
  eval (← argument .choose args (if condition.isTruthy then 1 else 2)) ctx

/-- A function of a numerator and a denominator, 0 where the denominator is 0. -/
def runQuotient (eval : Evaluator) (builtin : Builtin) (quotient : Float → Float → Float)
    (args : List (List Token)) (ctx : Context) : Except EvalError Value := do
  let numerator ← eval.number (← builtin.argument args 0) ctx
  let denominator ← eval.number (← builtin.argument args 1) ctx
  pure (.number (if denominator == 0 then 0 else quotient numerator denominator))

/-- The value of a call. -/
def run (eval : Evaluator) (builtin : Builtin) (args : List (List Token)) (ctx : Context) :
    Except EvalError Value :=
  match builtin with
  | .sum => reduceNumbers eval .sum Number.sum args ctx
  | .average => reduceNumbers eval .average Number.mean args ctx
  | .count => runCount eval args ctx
  | .minimum => reduceNumbers eval .minimum Number.minimum args ctx
  | .maximum => reduceNumbers eval .maximum Number.maximum args ctx
  | .movingAverage => runMovingAverage eval args ctx
  | .choose => runChoose eval args ctx
  | .ratio => runQuotient eval .ratio (fun x y => x / y) args ctx
  | .percentage => runQuotient eval .percentage (fun x y => x / y * 100) args ctx
  | .growthRate => runQuotient eval .growthRate (fun x y => (x - y) / y * 100) args ctx

end Builtin

end RecordFormula
