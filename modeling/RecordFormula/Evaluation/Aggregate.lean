import RecordFormula.Evaluation.Arithmetic
import RecordFormula.Evaluation.Context

/-! # Aggregates

An aggregate works out its value once for each record that passes its condition and then reduces the
values. The value is again a token list, so everything here takes the evaluator to use for it.
-/

namespace RecordFormula

/-- What gives a token list its value in a context. -/
abbrev Evaluator := List Token → Context → Except EvalError Value

/-- The value of a token list as a number. -/
def Evaluator.number (eval : Evaluator) (ts : List Token) (ctx : Context) : Except EvalError Float :=
  do (← eval ts ctx).toNumber

/-- The argument of an aggregate: a value for each record, and which records it is for. -/
structure AggregateArgument where
  value : List Token
  condition : Option Condition
deriving BEq, Repr

namespace AggregateArgument

/-- Splits an argument at its `WHERE`. -/
def parse (ts : List Token) : Except EvalError AggregateArgument :=
  match splitWhere ts with
  | none => .ok { value := ts, condition := none }
  | some (value, tokens) =>
    match Condition.parse tokens with
    | .ok condition => .ok { value, condition := some condition }
    | .error reason => .error (.malformed reason)

/-- Whether the value is `*` or left out, so that records are meant and not values. -/
def isWildcard (arg : AggregateArgument) : Bool :=
  match arg.value with
  | [] => true
  | [.operator .star] => true
  | _ => false

/-- The records that the aggregate is for. -/
def matching (arg : AggregateArgument) (ctx : Context) : Except EvalError (List Record) :=
  match arg.condition with
  | none => .ok ctx.data.records
  | some condition => ctx.select condition ctx.data.records

/-- The value for each record. -/
def valuesOf (eval : Evaluator) (value : List Token) (ctx : Context) :
    List Record → Except EvalError (List Value)
  | [] => .ok []
  | record :: records => do
    let v ← eval value (ctx.forRecord record)
    let vs ← valuesOf eval value ctx records
    pure (v :: vs)

/-- The values that a function reduces; records alone are not enough for it. -/
def values (eval : Evaluator) (arg : AggregateArgument) (function : String) (ctx : Context) :
    Except EvalError (List Value) :=
  if arg.isWildcard then .error (.invalidArgument function .wildcard)
  else do valuesOf eval arg.value ctx (← arg.matching ctx)

/-- The values that are numbers; null and other texts are passed over. -/
def numbers (eval : Evaluator) (arg : AggregateArgument) (function : String) (ctx : Context) :
    Except EvalError (List Float) :=
  do pure ((← arg.values eval function ctx).filterMap Value.number?)

/-- How many records there are, or how many have a value that is not null. -/
def count (eval : Evaluator) (arg : AggregateArgument) (ctx : Context) : Except EvalError Nat := do
  let records ← arg.matching ctx
  if arg.isWildcard then pure records.length
  else pure ((← valuesOf eval arg.value ctx records).countP fun v => !v.isNull)

end AggregateArgument

end RecordFormula
