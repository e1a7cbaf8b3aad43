import RecordFormula.Evaluation

/-!
# Reasons of failure

`OnlyFails allowed x`: if `x` fails, then for a reason in `allowed`. The parts of an evaluation are
put together with `bind`, and so is what is known of their failures.

Results:
1. `OnlyFails.bind`: the parts of a computation that only fail for allowed reasons make up one.
2. `onlyFails_collapse`: working out the steps of a row fails for the values in it and for nothing
   else.
3. `onlyFails_reduce`: a row of terms fails for the values in it or because it is malformed.
4. `onlyFails_run`: a function fails where its arguments do, and a moving average for its window.
-/

namespace RecordFormula

theorem exists_of_bind_eq_ok {ε α β : Type} {x : Except ε α} {f : α → Except ε β} {b : β}
    (found : x >>= f = .ok b) : ∃ a, x = .ok a ∧ f a = .ok b := by
  cases x with
  | error reason => exact absurd found (by simp [bind, Except.bind])
  | ok a => exact ⟨a, rfl, found⟩

theorem of_bind_eq_error {ε α β : Type} {x : Except ε α} {f : α → Except ε β} {reason : ε}
    (failed : x >>= f = .error reason) :
    x = .error reason ∨ ∃ a, x = .ok a ∧ f a = .error reason := by
  cases x with
  | error cause => exact .inl (congrArg Except.error (Except.error.inj failed))
  | ok a => exact .inr ⟨a, rfl, failed⟩

theorem exists_of_map_eq_ok {ε α β : Type} {x : Except ε α} {f : α → β} {b : β}
    (found : x.map f = .ok b) : ∃ a, x = .ok a ∧ f a = b := by
  cases x with
  | error reason => exact absurd found (by simp [Except.map])
  | ok a => exact ⟨a, rfl, Except.ok.inj found⟩

/-- The result of a computation in two parts, whatever they fail for. -/
theorem toOption_bind {ε α β : Type} (x : Except ε α) (f : α → Except ε β) :
    (x >>= f).toOption = x.toOption.bind fun a => (f a).toOption := by
  cases x <;> rfl

theorem toOption_eq_some_iff {ε α : Type} {x : Except ε α} {a : α} :
    x.toOption = some a ↔ x = .ok a := by
  cases x <;> simp [Except.toOption]

/-- Whether the reason is a token list that is not well formed. -/
def EvalError.isMalformed : EvalError → Bool
  | .malformed _ => true
  | _ => false

/-- Whether the reason lies in the values of an operation. -/
def EvalError.isOfValues : EvalError → Bool
  | .divisionByZero => true
  | .typeMismatch _ => true
  | _ => false

theorem EvalError.not_isMalformed_of_isOfValues {reason : EvalError}
    (values : reason.isOfValues = true) : reason.isMalformed = false := by
  cases reason with
  | malformed _ => simp [isOfValues] at values
  | _ => rfl

/-- A computation that fails for no other reason than the allowed ones. -/
def OnlyFails (allowed : EvalError → Prop) {α : Type} (x : Except EvalError α) : Prop :=
  ∀ reason, x = .error reason → allowed reason

namespace OnlyFails

variable {α β : Type} {allowed : EvalError → Prop} {x : Except EvalError α}

theorem ok (a : α) : OnlyFails allowed (.ok a) := fun _ failed => by simp at failed

theorem error {reason : EvalError} (isAllowed : allowed reason) :
    OnlyFails allowed (.error reason : Except EvalError α) := by
  intro reason' same
  obtain rfl := Except.error.inj same
  exact isAllowed

theorem bind {f : α → Except EvalError β} (first : OnlyFails allowed x)
    (second : ∀ a, x = .ok a → OnlyFails allowed (f a)) : OnlyFails allowed (x >>= f) := by
  cases x with
  | error reason => exact error (first reason rfl)
  | ok a => exact second a rfl

theorem map {f : α → β} (first : OnlyFails allowed x) : OnlyFails allowed (x.map f) := by
  cases x with
  | error reason => exact error (first reason rfl)
  | ok a => exact ok (f a)

theorem mono {weaker : EvalError → Prop} (fails : OnlyFails allowed x)
    (implies : ∀ reason, allowed reason → weaker reason) : OnlyFails weaker x :=
  fun reason failed => implies reason (fails reason failed)

end OnlyFails

/-! ## Operations -/

/-- A computation that fails for its values only. -/
abbrev OnlyFailsOfValues {α : Type} (x : Except EvalError α) : Prop :=
  OnlyFails (fun reason => reason.isOfValues = true) x

theorem onlyFails_toNumber (value : Value) : OnlyFailsOfValues value.toNumber := by
  cases value with
  | null => exact .ok 0
  | _ =>
    unfold Value.toNumber
    dsimp only
    split
    · exact .ok _
    · exact .error rfl

theorem onlyFails_withSign (negate : Bool) (value : Value) :
    OnlyFailsOfValues (value.withSign negate) := by
  unfold Value.withSign
  split
  · exact (onlyFails_toNumber value).bind fun _ _ => .ok _
  · exact .ok value

theorem onlyFails_compareValues (op : Comparator) (left right : Value) :
    OnlyFailsOfValues (compareValues op left right) := by
  unfold compareValues
  split
  · exact .ok _
  · split
    · exact .ok _
    · exact .error rfl

theorem onlyFails_apply (op : BinaryOp) (left right : Value) :
    OnlyFailsOfValues (op.apply left right) := by
  cases op with
  | compare op => exact onlyFails_compareValues op left right
  | divide =>
    refine (onlyFails_toNumber right).bind fun divisor _ => ?_
    split
    · exact .error rfl
    · exact (onlyFails_toNumber left).bind fun _ _ => .ok _
  | _ =>
    exact (onlyFails_toNumber left).bind fun _ _ => (onlyFails_toNumber right).bind fun _ _ => .ok _

theorem onlyFails_collapse (level : Nat) (left : Value) (steps : List Step) :
    OnlyFailsOfValues (collapse level left steps) := by
  induction steps generalizing left with
  | nil => exact .ok _
  | cons step steps ih =>
    obtain ⟨op, right⟩ := step
    unfold collapse
    split
    · exact (onlyFails_apply op left right).bind fun value _ => ih value
    · exact (ih right).bind fun _ _ => .ok _

/-! ## Rows of terms -/

namespace FailureLemmas

variable {allowed : EvalError → Prop} {ts : List Term}
  (values : ∀ reason : EvalError, reason.isOfValues = true → allowed reason)
  (malformed : ∀ reason, allowed (.malformed reason))

include malformed in
theorem onlyFails_readOperator (op : Operator) : OnlyFails allowed (readOperator op ts) := by
  unfold readOperator
  split
  · exact .ok _
  · split
    · exact .ok _
    · exact .error (malformed _)

include values malformed

theorem onlyFails_readOperand : OnlyFails allowed (readOperand ts) := by
  unfold readOperand
  split
  · exact ((onlyFails_withSign _ _).mono values).map
  · exact .error (malformed _)
  · exact .error (malformed _)

theorem onlyFails_readSteps : OnlyFails allowed (readSteps ts) := by
  fun_induction readSteps ts with
  | case1 ts reason failed => exact .error (onlyFails_readOperand values malformed reason failed)
  | case2 => exact .ok _
  | case3 => exact .error (malformed _)
  | case4 _ _ op _ _ reason failed => exact .error (onlyFails_readOperator malformed op reason failed)
  | case5 _ _ _ _ _ _ _ _ reason failed ih => exact .error (ih reason failed)
  | case6 => exact .ok _

theorem onlyFails_row : OnlyFails allowed (reduceFlat ts) := by
  have level (level : Nat) (left : Value) (steps : List Step) :
      OnlyFails allowed (collapse level left steps) :=
    (onlyFails_collapse level left steps).mono values
  unfold reduceFlat
  split
  · exact .error (malformed _)
  · refine (onlyFails_readSteps values malformed).bind fun (value, steps) _ => ?_
    refine (level 2 value steps).bind fun (value, steps) _ => ?_
    refine (level 1 value steps).bind fun (value, steps) _ => ?_
    exact (level 0 value steps).bind fun _ _ => .ok _

theorem onlyFails_rows {outer : List (List Term)} {row : List Term} :
    OnlyFails allowed (reduceFrom outer row ts) := by
  fun_induction reduceFrom outer row ts with
  | case1 => exact onlyFails_row values malformed
  | case2 => exact .error (malformed _)
  | case3 _ _ _ ih => exact ih
  | case4 => exact .error (malformed _)
  | case5 => exact .error (malformed _)
  | case6 _ _ _ _ _ ih => exact (onlyFails_row values malformed).bind fun value _ => ih value
  | case7 _ _ _ _ _ _ ih => exact ih

end FailureLemmas

/-- Any row of terms fails for the values in it or because it is malformed. -/
theorem onlyFails_reduce {allowed : EvalError → Prop}
    (values : ∀ reason : EvalError, reason.isOfValues = true → allowed reason)
    (malformed : ∀ reason, allowed (.malformed reason)) (ts : List Term) :
    OnlyFails allowed (reduce ts) :=
  FailureLemmas.onlyFails_rows values malformed

/-! ## Records -/

section Records

variable {allowed : EvalError → Prop} {ctx : Context} {record : Record} {name : String}
  (missing : ctx.strict = true → ∀ name, allowed (.missingField name))

include missing

theorem onlyFails_lookup : OnlyFails allowed (ctx.lookup record name) := by
  unfold Context.lookup
  split
  · exact .ok _
  · split
    · rename_i strict
      exact .error (missing strict name)
    · exact .ok _

theorem onlyFails_fieldValue (outside : ctx.data.record? = none → allowed (.noRecordContext name)) :
    OnlyFails allowed (ctx.fieldValue name) := by
  unfold Context.fieldValue
  split
  · rename_i none
    exact .error (outside none)
  · exact (onlyFails_lookup missing).bind fun _ _ => .ok _

theorem onlyFails_passes (comparisons : List Comparison) :
    OnlyFails allowed (ctx.passes record comparisons) := by
  induction comparisons with
  | nil => exact .ok _
  | cons comparison comparisons ih =>
    refine (onlyFails_lookup missing).bind fun value _ => ?_
    split
    · exact ih
    · exact .ok _

theorem onlyFails_select (condition : Condition) (records : List Record) :
    OnlyFails allowed (ctx.select condition records) := by
  induction records with
  | nil => exact .ok _
  | cons record records ih =>
    exact (onlyFails_passes missing _).bind fun _ _ => ih.bind fun _ _ => .ok _

end Records

/-! ## Functions -/

/-- The first argument of an aggregate: where it cannot be read, where its condition fails and where
its value does. -/
structure OnlyFailsIn (allowed : EvalError → Prop) (eval : Evaluator) (ctx : Context)
    (arg : List Token) : Prop where
  parse : OnlyFails allowed (AggregateArgument.parse arg)
  matching : ∀ parsed, AggregateArgument.parse arg = .ok parsed →
    OnlyFails allowed (parsed.matching ctx)
  value : ∀ parsed, AggregateArgument.parse arg = .ok parsed → parsed.isWildcard = false →
    ∀ record ∈ ctx.data.records, OnlyFails allowed (eval parsed.value (ctx.forRecord record))

/-- Whatever has a `*` for its value, or none, an error of the function about that is allowed. -/
def AllowsWildcard (allowed : EvalError → Prop) (builtin : Builtin) (args : List (List Token)) :
    Prop :=
  ∀ arg parsed, args[0]? = some arg → AggregateArgument.parse arg = .ok parsed →
    parsed.isWildcard = true → allowed (.invalidArgument builtin.name .wildcard)

section Functions

variable {allowed : EvalError → Prop} {eval : Evaluator} {ctx : Context} {arg : List Token}
  {parsed : AggregateArgument} {args : List (List Token)}

theorem subset_of_select {condition : Condition} {records kept : List Record}
    (selected : ctx.select condition records = .ok kept) : kept ⊆ records := by
  induction records generalizing kept with
  | nil =>
    obtain rfl := Except.ok.inj selected
    exact List.Subset.refl _
  | cons record records ih =>
    obtain ⟨keep, -, selected⟩ := exists_of_bind_eq_ok selected
    obtain ⟨rest, found, selected⟩ := exists_of_bind_eq_ok selected
    obtain rfl := Except.ok.inj selected
    cases keep with
    | true => exact List.cons_subset_cons _ (ih found)
    | false => exact List.subset_cons_of_subset _ (ih found)

theorem subset_of_matching {records : List Record} (matched : parsed.matching ctx = .ok records) :
    records ⊆ ctx.data.records := by
  rw [AggregateArgument.matching] at matched
  split at matched
  · rw [Except.ok.inj matched]
    exact List.Subset.refl _
  · exact subset_of_select matched

theorem onlyFails_valuesOf {value : List Token} {records : List Record}
    (fails : ∀ record ∈ records, OnlyFails allowed (eval value (ctx.forRecord record))) :
    OnlyFails allowed (AggregateArgument.valuesOf eval value ctx records) := by
  induction records with
  | nil => exact .ok _
  | cons record records ih =>
    refine (fails record List.mem_cons_self).bind fun _ _ => ?_
    exact (ih fun other mem => fails other (List.mem_cons_of_mem _ mem)).bind fun _ _ => .ok _

theorem onlyFails_numbers {function : String}
    (wildcard : parsed.isWildcard = true → allowed (.invalidArgument function .wildcard))
    (fails : OnlyFailsIn allowed eval ctx arg) (found : AggregateArgument.parse arg = .ok parsed) :
    OnlyFails allowed (parsed.numbers eval function ctx) := by
  have values : OnlyFails allowed (parsed.values eval function ctx) := by
    unfold AggregateArgument.values
    split
    · rename_i isWildcard
      exact .error (wildcard isWildcard)
    · rename_i isValue
      refine (fails.matching parsed found).bind fun records matched => ?_
      exact onlyFails_valuesOf fun record mem =>
        fails.value parsed found (by simpa using isValue) record (subset_of_matching matched mem)
  exact values.bind fun _ _ => .ok _

theorem onlyFails_count (fails : OnlyFailsIn allowed eval ctx arg)
    (found : AggregateArgument.parse arg = .ok parsed) :
    OnlyFails allowed (parsed.count eval ctx) := by
  refine (fails.matching parsed found).bind fun records matched => ?_
  split
  · exact .ok _
  · rename_i isValue
    have values : OnlyFails allowed (AggregateArgument.valuesOf eval parsed.value ctx records) :=
      onlyFails_valuesOf fun record mem =>
        fails.value parsed found (by simpa using isValue) record (subset_of_matching matched mem)
    exact values.bind fun _ _ => .ok _

theorem bind_argument {α : Type} (builtin : Builtin) {index : Nat}
    {f : List Token → Except EvalError α} (inside : index < args.length)
    (fails : ∀ arg, args[index]? = some arg → OnlyFails allowed (f arg)) :
    OnlyFails allowed (builtin.argument args index >>= f) := by
  have present := List.getElem?_eq_getElem inside
  rw [Builtin.argument, present]
  exact fails _ present

theorem onlyFails_reduceNumbers {builtin : Builtin} {reduction : List Float → Float}
    (single : 0 < args.length) (wildcard : AllowsWildcard allowed builtin args)
    (fails : ∀ arg, args[0]? = some arg → OnlyFailsIn allowed eval ctx arg) :
    OnlyFails allowed (Builtin.reduceNumbers eval builtin reduction args ctx) := by
  refine bind_argument builtin single fun arg present => ?_
  refine (fails arg present).parse.bind fun parsed found => ?_
  have isWildcard := wildcard arg parsed present found
  exact (onlyFails_numbers isWildcard (fails arg present) found).bind fun _ _ => .ok _

theorem onlyFails_runCount
    (fails : ∀ arg, args[0]? = some arg → OnlyFailsIn allowed eval ctx arg) :
    OnlyFails allowed (Builtin.runCount eval args ctx) := by
  cases args with
  | nil => exact .ok _
  | cons arg args =>
    refine (fails arg rfl).parse.bind fun parsed found => ?_
    exact (onlyFails_count (fails arg rfl) found).bind fun _ _ => .ok _

variable (values : ∀ reason : EvalError, reason.isOfValues = true → allowed reason)

include values

theorem onlyFails_number (fails : OnlyFails allowed (eval arg ctx)) :
    OnlyFails allowed (eval.number arg ctx) :=
  fails.bind fun value _ => (onlyFails_toNumber value).mono values

theorem onlyFails_runMovingAverage (both : 1 < args.length)
    (wildcard : AllowsWildcard allowed .movingAverage args)
    (window : ∀ size, allowed (.invalidArgument Builtin.movingAverage.name (.window size)))
    (fails : ∀ arg, args[0]? = some arg → OnlyFailsIn allowed eval ctx arg)
    (size : ∀ arg, args[1]? = some arg → OnlyFails allowed (eval arg ctx)) :
    OnlyFails allowed (Builtin.runMovingAverage eval args ctx) := by
  refine bind_argument .movingAverage (by omega) fun arg present => ?_
  refine (fails arg present).parse.bind fun parsed found => ?_
  refine bind_argument .movingAverage both fun sized sizePresent => ?_
  refine (onlyFails_number values (size sized sizePresent)).bind fun x _ => ?_
  split
  · exact .error (window x)
  · have isWildcard := wildcard arg parsed present found
    exact (onlyFails_numbers isWildcard (fails arg present) found).bind fun _ _ => .ok _

omit values in
theorem onlyFails_runChoose (all : 2 < args.length)
    (fails : ∀ arg ∈ args, OnlyFails allowed (eval arg ctx)) :
    OnlyFails allowed (Builtin.runChoose eval args ctx) := by
  refine bind_argument .choose (by omega) fun arg present => ?_
  refine (fails arg (List.mem_of_getElem? present)).bind fun condition _ => ?_
  refine bind_argument .choose ?_ fun branch present => fails branch (List.mem_of_getElem? present)
  split <;> omega

theorem onlyFails_runQuotient {builtin : Builtin} {quotient : Float → Float → Float}
    (both : 1 < args.length) (fails : ∀ arg ∈ args, OnlyFails allowed (eval arg ctx)) :
    OnlyFails allowed (Builtin.runQuotient eval builtin quotient args ctx) := by
  refine bind_argument builtin (by omega) fun arg present => ?_
  refine (onlyFails_number values (fails arg (List.mem_of_getElem? present))).bind fun _ _ => ?_
  refine bind_argument builtin both fun arg present => ?_
  exact (onlyFails_number values (fails arg (List.mem_of_getElem? present))).bind fun _ _ => .ok _

/-- A function of the catalog with enough arguments fails where they do. The window of a moving average
may be wrong besides. -/
theorem onlyFails_run {spec : FunctionSpec} (known : spec ∈ Catalog.standardFunctions)
    (enough : spec.arity.min ≤ args.length)
    (window : ∀ size, allowed (.invalidArgument Builtin.movingAverage.name (.window size)))
    (wildcard : spec.builtin ≠ .count → AllowsWildcard allowed spec.builtin args)
    (first : spec.mode = .aggregate → ∀ arg, args[0]? = some arg → OnlyFailsIn allowed eval ctx arg)
    (size : spec.builtin = .movingAverage → ∀ arg, args[1]? = some arg →
      OnlyFails allowed (eval arg ctx))
    (scalars : spec.mode ≠ .aggregate → spec.builtin ≠ .count → ∀ arg ∈ args,
      OnlyFails allowed (eval arg ctx)) :
    OnlyFails allowed (spec.builtin.run eval args ctx) := by
  simp only [Catalog.standardFunctions, List.mem_cons, List.not_mem_nil, or_false] at known
  rcases known with rfl | rfl | rfl | rfl | rfl | rfl | rfl | rfl | rfl | rfl
  · exact onlyFails_reduceNumbers enough (wildcard (by simp)) (first rfl)
  · exact onlyFails_reduceNumbers enough (wildcard (by simp)) (first rfl)
  · exact onlyFails_runCount (first rfl)
  · exact onlyFails_reduceNumbers enough (wildcard (by simp)) (first rfl)
  · exact onlyFails_reduceNumbers enough (wildcard (by simp)) (first rfl)
  · exact onlyFails_runMovingAverage values enough (wildcard (by simp)) window (first rfl) (size rfl)
  · exact onlyFails_runChoose enough (scalars (by simp) (by simp))
  · exact onlyFails_runQuotient values enough (scalars (by simp) (by simp))
  · exact onlyFails_runQuotient values enough (scalars (by simp) (by simp))
  · exact onlyFails_runQuotient values enough (scalars (by simp) (by simp))

end Functions

end RecordFormula
