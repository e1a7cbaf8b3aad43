import Mathlib.Data.List.Forall2
import RecordFormula.Evaluation

/-!
# Functions in lockstep

Two runs of one function go through the same steps: each asks for its arguments in the same order, reads
them, evaluates them and reduces what it gets. So whatever relates the steps relates the runs. A `Lockstep`
is a relation between runs that can be put together in this way; which contexts, evaluators and arguments
the two runs have is left open.

Results:
1. `AlikeAggregates.of_matching`: the aggregates of two arguments are alike if their records are and their
   values for them.
2. `run_lockstep`: the runs of a function on alike arguments are related.
-/

namespace RecordFormula

/-- A relation between runs, for each relation between their values. It holds of runs that fail with one
error, and of runs that are put together from related ones. -/
structure Lockstep where
  Relates : {α β : Type} → (α → β → Prop) → Except EvalError α → Except EvalError β → Prop
  ok {α β : Type} {R : α → β → Prop} {a : α} {b : β} : R a b → Relates R (.ok a) (.ok b)
  error {α β : Type} {R : α → β → Prop} (reason : EvalError) :
    Relates R (.error reason : Except EvalError α) (.error reason : Except EvalError β)
  bind {α β γ δ : Type} {R : α → β → Prop} {S : γ → δ → Prop} {x : Except EvalError α}
    {y : Except EvalError β} {f : α → Except EvalError γ} {g : β → Except EvalError δ} :
    Relates R x y → (∀ a b, x = .ok a → y = .ok b → R a b → Relates S (f a) (g b)) →
      Relates S (x >>= f) (y >>= g)

namespace Lockstep

variable (steps : Lockstep) {α γ δ : Type} {S : γ → δ → Prop}

theorem refl (x : Except EvalError α) : steps.Relates Eq x x := by
  cases x with
  | error reason => exact steps.error reason
  | ok a => exact steps.ok rfl

theorem bind_eq {x y : Except EvalError α} {f : α → Except EvalError γ} {g : α → Except EvalError δ}
    (first : steps.Relates Eq x y) (second : ∀ a, steps.Relates S (f a) (g a)) :
    steps.Relates S (x >>= f) (y >>= g) :=
  steps.bind first fun a _ _ _ same => same ▸ second a

end Lockstep

variable {steps : Lockstep} {eval eval' : Evaluator} {ctx ctx' : Context}

/-! ## Arguments -/

/-- Two read arguments that an aggregate gets the same from. -/
structure AlikeAggregates (steps : Lockstep) (eval eval' : Evaluator) (ctx ctx' : Context)
    (arg arg' : AggregateArgument) : Prop where
  numbers : ∀ function,
    steps.Relates Eq (arg.numbers eval function ctx) (arg'.numbers eval' function ctx')
  count : steps.Relates Eq (arg.count eval ctx) (arg'.count eval' ctx')

/-- The aggregates of two arguments are alike if they are for related records and have the same values for
those. -/
theorem AlikeAggregates.of_matching {arg arg' : AggregateArgument} {R : List Record → List Record → Prop}
    (wildcard : arg'.isWildcard = arg.isWildcard)
    (matching : steps.Relates R (arg.matching ctx) (arg'.matching ctx'))
    (length : ∀ records others, R records others → records.length = others.length)
    (values : ∀ records others, arg.matching ctx = .ok records → R records others →
      steps.Relates Eq (AggregateArgument.valuesOf eval arg.value ctx records)
        (AggregateArgument.valuesOf eval' arg'.value ctx' others)) :
    AlikeAggregates steps eval eval' ctx ctx' arg arg' where
  numbers function := by
    have sameValues :
        steps.Relates Eq (arg.values eval function ctx) (arg'.values eval' function ctx') := by
      rw [AggregateArgument.values, AggregateArgument.values, wildcard]
      split
      · exact steps.error _
      · exact steps.bind matching fun records others found _ related => values records others found related
    exact steps.bind_eq sameValues fun _ => steps.refl _
  count := by
    refine steps.bind matching fun records others found _ related => ?_
    rw [wildcard]
    split
    · exact steps.ok (length records others related)
    · exact steps.bind_eq (values records others found related) fun _ => steps.refl _

/-- Two arguments that a function gets the same from, whether it evaluates them or reads them for an
aggregate. -/
structure AlikeArguments (steps : Lockstep) (eval eval' : Evaluator) (ctx ctx' : Context)
    (arg arg' : List Token) : Prop where
  value : steps.Relates Eq (eval arg ctx) (eval' arg' ctx')
  parsed : steps.Relates (AlikeAggregates steps eval eval' ctx ctx') (AggregateArgument.parse arg)
    (AggregateArgument.parse arg')

theorem AlikeArguments.number {arg arg' : List Token}
    (alike : AlikeArguments steps eval eval' ctx ctx' arg arg') :
    steps.Relates Eq (eval.number arg ctx) (eval'.number arg' ctx') :=
  steps.bind_eq alike.value fun _ => steps.refl _

/-! ## Functions -/

section Functions

variable {args args' : List (List Token)}

theorem argument_lockstep {A : List Token → List Token → Prop} (alike : List.Forall₂ A args args')
    (builtin : Builtin) (index : Nat) :
    steps.Relates A (builtin.argument args index) (builtin.argument args' index) := by
  rw [Builtin.argument, Builtin.argument, ← alike.length_eq]
  by_cases here : index < args.length
  · have here' : index < args'.length := alike.length_eq ▸ here
    rw [List.getElem?_eq_getElem here, List.getElem?_eq_getElem here']
    exact steps.ok (alike.get here here')
  · have beyond := Nat.le_of_not_lt here
    rw [List.getElem?_eq_none beyond, List.getElem?_eq_none (alike.length_eq ▸ beyond)]
    exact steps.error _

variable (alike : List.Forall₂ (AlikeArguments steps eval eval' ctx ctx') args args')
include alike

theorem reduceNumbers_lockstep (builtin : Builtin) (reduction : List Float → Float) :
    steps.Relates Eq (Builtin.reduceNumbers eval builtin reduction args ctx)
      (Builtin.reduceNumbers eval' builtin reduction args' ctx') := by
  refine steps.bind (argument_lockstep alike builtin 0) fun arg arg' _ _ argument => ?_
  refine steps.bind argument.parsed fun parsed parsed' _ _ aggregate => ?_
  exact steps.bind_eq (aggregate.numbers builtin.name) fun _ => steps.refl _

theorem runQuotient_lockstep (builtin : Builtin) (quotient : Float → Float → Float) :
    steps.Relates Eq (Builtin.runQuotient eval builtin quotient args ctx)
      (Builtin.runQuotient eval' builtin quotient args' ctx') := by
  refine steps.bind (argument_lockstep alike builtin 0) fun arg arg' _ _ argument => ?_
  refine steps.bind_eq argument.number fun numerator => ?_
  refine steps.bind (argument_lockstep alike builtin 1) fun arg arg' _ _ argument => ?_
  exact steps.bind_eq argument.number fun _ => steps.refl _

theorem runCount_lockstep (size : ctx.data.size = ctx'.data.size) :
    steps.Relates Eq (Builtin.runCount eval args ctx) (Builtin.runCount eval' args' ctx') := by
  cases alike with
  | nil =>
    rw [Builtin.runCount, Builtin.runCount, size]
    exact steps.refl _
  | cons argument _ =>
    refine steps.bind argument.parsed fun parsed parsed' _ _ aggregate => ?_
    exact steps.bind_eq aggregate.count fun _ => steps.refl _

theorem runMovingAverage_lockstep :
    steps.Relates Eq (Builtin.runMovingAverage eval args ctx)
      (Builtin.runMovingAverage eval' args' ctx') := by
  refine steps.bind (argument_lockstep alike .movingAverage 0) fun arg arg' _ _ argument => ?_
  refine steps.bind argument.parsed fun parsed parsed' _ _ aggregate => ?_
  refine steps.bind (argument_lockstep alike .movingAverage 1) fun window window' _ _ sized => ?_
  refine steps.bind_eq sized.number fun size => ?_
  split
  · exact steps.error _
  · exact steps.bind_eq (aggregate.numbers Builtin.movingAverage.name) fun _ => steps.refl _

theorem runChoose_lockstep :
    steps.Relates Eq (Builtin.runChoose eval args ctx) (Builtin.runChoose eval' args' ctx') := by
  refine steps.bind (argument_lockstep alike .choose 0) fun arg arg' _ _ argument => ?_
  refine steps.bind_eq argument.value fun condition => ?_
  exact steps.bind (argument_lockstep alike .choose _) fun _ _ _ _ branch => branch.value

/-- The runs of a function on alike arguments are related. -/
theorem run_lockstep (builtin : Builtin) (size : ctx.data.size = ctx'.data.size) :
    steps.Relates Eq (builtin.run eval args ctx) (builtin.run eval' args' ctx') := by
  cases builtin with
  | sum | average | minimum | maximum => exact reduceNumbers_lockstep alike _ _
  | count => exact runCount_lockstep alike size
  | ratio | percentage | growthRate => exact runQuotient_lockstep alike _ _
  | movingAverage => exact runMovingAverage_lockstep alike
  | choose => exact runChoose_lockstep alike

end Functions

end RecordFormula
