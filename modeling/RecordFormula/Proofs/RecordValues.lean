import RecordFormula.Proofs.RecordLists

/-!
# Values of records

An aggregate works out its argument for each record that passes its condition, and has no answer where one
of these has none. So what the argument is for a list of records is given by what it is for each of them,
and lists one behind the other can be taken apart.

Results:
1. `numbers_eq_ok_iff`: an argument has numbers if it can be worked out for every record, and which.
2. `count_eq_ok_iff`: the same for the number of records.
3. `evaluate_reduction` and `evaluate_count`: what a call is worth that reduces numbers or counts records.
-/

namespace RecordFormula

open NestingLemmas TreeLemmas RecordListsLemmas

namespace AggregateArgument

/-- Whether a record passes the condition, if there is one. -/
def admits (arg : AggregateArgument) (ctx : Context) (record : Record) : Bool :=
  arg.condition.all (ctx.selects · record)

/-- The argument can be worked out for a record: the condition has an answer, and the value has one for a
record that passes. -/
structure WorksOut (arg : AggregateArgument) (ctx : Context) (record : Record) : Prop where
  answered : ∀ condition ∈ arg.condition, ∃ keep, ctx.satisfies condition record = .ok keep
  valued : arg.isWildcard = false → arg.admits ctx record = true →
    ∃ v, evaluate arg.value (ctx.forRecord record) = .ok v

/-- The value for a record that passes the condition. -/
def valueOf? (arg : AggregateArgument) (ctx : Context) (record : Record) : Option Value :=
  if arg.admits ctx record then (evaluate arg.value (ctx.forRecord record)).toOption else none

/-- The value as a number; other values are passed over. -/
def numberOf? (arg : AggregateArgument) (ctx : Context) (record : Record) : Option Float :=
  (arg.valueOf? ctx record).bind Value.number?

/-- Whether a record is counted. Where records are meant it is if it passes. -/
def counts (arg : AggregateArgument) (ctx : Context) (record : Record) : Bool :=
  if arg.isWildcard then arg.admits ctx record else (arg.valueOf? ctx record).any fun v => !v.isNull

end AggregateArgument

namespace RecordValuesLemmas

variable {arg : AggregateArgument} {ctx : Context} {function : String} {records : List Record}

theorem select_eq_ok_iff {condition : Condition} {selected : List Record} :
    ctx.select condition records = .ok selected ↔
      (∀ record ∈ records, ∃ keep, ctx.satisfies condition record = .ok keep) ∧
        selected = records.filter (ctx.selects condition) := by
  constructor
  · intro found
    have answered : ∀ record ∈ records, ∃ keep, ctx.satisfies condition record = .ok keep := by
      induction records generalizing selected with
      | nil => simp
      | cons record records ih =>
        obtain ⟨keep, answer, found⟩ := exists_of_bind_eq_ok found
        obtain ⟨rest, behind, -⟩ := exists_of_bind_eq_ok found
        exact List.forall_mem_cons.mpr ⟨⟨keep, answer⟩, ih behind⟩
    rw [select_eq_filter answered] at found
    exact ⟨answered, (Except.ok.inj found).symm⟩
  · rintro ⟨answered, rfl⟩
    exact select_eq_filter answered

theorem valuesOf_eq_ok_iff {value : List Token} {values : List Value} :
    AggregateArgument.valuesOf evaluate value ctx records = .ok values ↔
      (∀ record ∈ records, ∃ v, evaluate value (ctx.forRecord record) = .ok v) ∧
        values = records.filterMap fun record => (evaluate value (ctx.forRecord record)).toOption := by
  induction records generalizing values with
  | nil => simp [AggregateArgument.valuesOf, eq_comm]
  | cons record records ih =>
    constructor
    · intro found
      obtain ⟨v, first, found⟩ := exists_of_bind_eq_ok found
      obtain ⟨vs, behind, found⟩ := exists_of_bind_eq_ok found
      obtain rfl := Except.ok.inj found
      obtain ⟨rest, rfl⟩ := ih.mp behind
      exact ⟨List.forall_mem_cons.mpr ⟨⟨v, first⟩, rest⟩, by rw [List.filterMap_cons, first]; rfl⟩
    · rintro ⟨each, rfl⟩
      obtain ⟨⟨v, first⟩, rest⟩ := List.forall_mem_cons.mp each
      rw [AggregateArgument.valuesOf, first, ih.mpr ⟨rest, rfl⟩, List.filterMap_cons, first]
      rfl

theorem matching_eq_ok_iff {matched : List Record} :
    arg.matching { ctx with data := .many records } = .ok matched ↔
      (∀ record ∈ records, ∀ condition ∈ arg.condition, ∃ keep, ctx.satisfies condition record = .ok keep) ∧
        matched = records.filter (arg.admits ctx) := by
  unfold AggregateArgument.matching AggregateArgument.admits
  cases arg.condition with
  | none => simp [Data.records, eq_comm]
  | some condition =>
    refine select_eq_ok_iff.trans ?_
    simp [satisfies_eq, selects_eq, Data.records]

end RecordValuesLemmas

open RecordValuesLemmas

namespace AggregateArgument

variable {arg : AggregateArgument} {ctx : Context} {function : String} {records : List Record}

/-- An argument has values for a list of records if it is no wildcard and can be worked out for each. -/
theorem values_eq_ok_iff {vs : List Value} :
    arg.values evaluate function { ctx with data := .many records } = .ok vs ↔
      arg.isWildcard = false ∧ (∀ record ∈ records, arg.WorksOut ctx record) ∧
        vs = records.filterMap (arg.valueOf? ctx) := by
  have passing : records.filterMap (arg.valueOf? ctx) = (records.filter (arg.admits ctx)).filterMap
      fun record => (evaluate arg.value (ctx.forRecord record)).toOption :=
    List.filterMap_filter.symm
  unfold values
  cases valued : arg.isWildcard with
  | true => simp
  | false =>
    rw [if_neg Bool.false_ne_true]
    constructor
    · intro found
      obtain ⟨matched, matching, found⟩ := exists_of_bind_eq_ok found
      obtain ⟨answered, rfl⟩ := matching_eq_ok_iff.mp matching
      obtain ⟨each, rfl⟩ := valuesOf_eq_ok_iff.mp found
      refine ⟨rfl, fun record mem => ⟨answered record mem, fun _ passes => ?_⟩, passing.symm⟩
      exact each record (List.mem_filter.mpr ⟨mem, passes⟩)
    · rintro ⟨-, each, rfl⟩
      rw [matching_eq_ok_iff.mpr ⟨fun record mem => (each record mem).answered, rfl⟩, passing]
      refine valuesOf_eq_ok_iff.mpr ⟨fun record mem => ?_, rfl⟩
      obtain ⟨mem, passes⟩ := List.mem_filter.mp mem
      exact (each record mem).valued valued passes

/-- The numbers are those among the values. -/
theorem numbers_eq_ok_iff {xs : List Float} :
    arg.numbers evaluate function { ctx with data := .many records } = .ok xs ↔
      arg.isWildcard = false ∧ (∀ record ∈ records, arg.WorksOut ctx record) ∧
        xs = records.filterMap (arg.numberOf? ctx) := by
  have numeric : records.filterMap (arg.numberOf? ctx) =
      (records.filterMap (arg.valueOf? ctx)).filterMap Value.number? :=
    List.filterMap_filterMap.symm
  constructor
  · intro found
    obtain ⟨vs, found, reads⟩ := exists_of_bind_eq_ok found
    obtain ⟨valued, each, rfl⟩ := values_eq_ok_iff.mp found
    exact ⟨valued, each, (Except.ok.inj reads).symm.trans numeric.symm⟩
  · rintro ⟨valued, each, rfl⟩
    rw [numbers, values_eq_ok_iff.mpr ⟨valued, each, rfl⟩, numeric]
    rfl

theorem count_of_wildcard {n : ℕ} (wildcard : arg.isWildcard = true) :
    arg.count evaluate { ctx with data := .many records } = .ok n ↔
      (∀ record ∈ records, arg.WorksOut ctx record) ∧ n = records.countP (arg.counts ctx) := by
  have worksOut (record : Record) : arg.WorksOut ctx record ↔
      ∀ condition ∈ arg.condition, ∃ keep, ctx.satisfies condition record = .ok keep :=
    ⟨fun works => works.answered, fun answered => ⟨answered, by simp [wildcard]⟩⟩
  have counted : records.countP (arg.counts ctx) = (records.filter (arg.admits ctx)).length := by
    have admitted : arg.counts ctx = arg.admits ctx := by
      funext record
      rw [counts, wildcard, if_pos rfl]
    rw [admitted, List.countP_eq_length_filter]
  unfold count
  simp only [worksOut, counted, wildcard, if_true]
  constructor
  · intro found
    obtain ⟨matched, matching, found⟩ := exists_of_bind_eq_ok found
    obtain ⟨answered, rfl⟩ := matching_eq_ok_iff.mp matching
    exact ⟨answered, (Except.ok.inj found).symm⟩
  · rintro ⟨answered, rfl⟩
    rw [matching_eq_ok_iff.mpr ⟨answered, rfl⟩]
    rfl

theorem count_of_values {n : ℕ} (valued : arg.isWildcard = false) :
    arg.count evaluate { ctx with data := .many records } = .ok n ↔
      (∀ record ∈ records, arg.WorksOut ctx record) ∧ n = records.countP (arg.counts ctx) := by
  have counted : records.countP (arg.counts ctx) =
      (records.filterMap (arg.valueOf? ctx)).countP fun v => !v.isNull := by
    rw [List.countP_filterMap]
    congr 1
    funext record
    rw [counts, valued, if_neg Bool.false_ne_true]
    cases arg.valueOf? ctx record <;> rfl
  have worked : arg.count evaluate { ctx with data := .many records } = (do
      let values ← arg.values evaluate "COUNT" { ctx with data := .many records }
      pure (values.countP fun v => !v.isNull)) := by
    unfold count values
    simp only [valued, Bool.false_eq_true, if_false]
    cases arg.matching { ctx with data := .many records } <;> rfl
  rw [worked, counted]
  constructor
  · intro found
    obtain ⟨vs, values, found⟩ := exists_of_bind_eq_ok found
    obtain ⟨-, each, rfl⟩ := values_eq_ok_iff.mp values
    exact ⟨each, (Except.ok.inj found).symm⟩
  · rintro ⟨each, rfl⟩
    rw [values_eq_ok_iff.mpr ⟨valued, each, rfl⟩]
    rfl

/-- The records or values of an argument are counted if it can be worked out for each record. -/
theorem count_eq_ok_iff {n : ℕ} :
    arg.count evaluate { ctx with data := .many records } = .ok n ↔
      (∀ record ∈ records, arg.WorksOut ctx record) ∧ n = records.countP (arg.counts ctx) := by
  cases kind : arg.isWildcard with
  | true => exact count_of_wildcard kind
  | false => exact count_of_values kind

end AggregateArgument

/-! ## Calls -/

/-- What a function makes of the numbers of its argument, if that is all that it looks at. -/
def Builtin.reduction? : Builtin → Option (List Float → Float)
  | .sum => some Number.sum
  | .average => some Number.mean
  | .minimum => some Number.minimum
  | .maximum => some Number.maximum
  | _ => none

/-- What a call of a function with one argument is worth over a list of records. -/
def FunctionName.over (function : FunctionName) (first : List Token) (ctx : Context) (records : List Record) :
    Except EvalError Value :=
  evaluate (function.callTokens [first]) { ctx with data := .many records }

section Calls

variable {function : FunctionName} {reduction : List Float → Float} {first : List Token}
  {arg : AggregateArgument} {ctx : Context} {records : List Record} {v : Value}

theorem run_reduction (reduces : function.spec.builtin.reduction? = some reduction)
    (parsed : AggregateArgument.parse first = .ok arg) :
    function.spec.builtin.run evaluate [first] ctx = (do
      let xs ← arg.numbers evaluate function.spec.builtin.name ctx
      pure (.number (reduction xs))) := by
  cases named : function.spec.builtin with
  | sum | average | minimum | maximum =>
    rw [named] at reduces
    obtain rfl := Option.some.inj reduces
    show (AggregateArgument.parse first >>= _) = _
    rw [parsed]
    rfl
  | _ => exact absurd (named ▸ reduces) (by simp [Builtin.reduction?])

/-- A call that reduces numbers has a value if its argument has numbers. -/
theorem evaluate_reduction (reduces : function.spec.builtin.reduction? = some reduction)
    (isArgument : IsArgument first) (parsed : AggregateArgument.parse first = .ok arg) :
    function.over first ctx records = .ok v ↔
      arg.isWildcard = false ∧ (∀ record ∈ records, arg.WorksOut ctx record) ∧
        v = .number (reduction (records.filterMap (arg.numberOf? ctx))) := by
  have fits : function.spec.arity.accepts [first].length = true := by
    rw [function.arity_mode_eq.1]
    cases named : function.spec.builtin
    all_goals first | rfl | exact absurd (named ▸ reduces) (by simp [Builtin.reduction?])
  rw [FunctionName.over, evaluate_callTokens (by simp [isArgument]) fits, run_reduction reduces parsed]
  constructor
  · intro found
    obtain ⟨xs, numbers, found⟩ := exists_of_bind_eq_ok found
    obtain ⟨valued, each, rfl⟩ := AggregateArgument.numbers_eq_ok_iff.mp numbers
    exact ⟨valued, each, (Except.ok.inj found).symm⟩
  · rintro ⟨valued, each, rfl⟩
    rw [AggregateArgument.numbers_eq_ok_iff.mpr ⟨valued, each, rfl⟩]
    rfl

/-- A count has a value if its argument can be worked out for each record. It may have no argument. -/
theorem evaluate_count (named : function.spec.builtin = .count)
    (closed : isClosed Token.isComma 0 first = true) (parsed : AggregateArgument.parse first = .ok arg) :
    function.over first ctx records = .ok v ↔
      (∀ record ∈ records, arg.WorksOut ctx record) ∧
        v = .number (Float.ofNat (records.countP (arg.counts ctx))) := by
  have aggregate : function.spec.mode = .aggregate := by
    rw [function.arity_mode_eq.2, named]
    rfl
  have called := evaluate_aggregate aggregate closed (fun _ => named) 0 { ctx with data := .many records }
  rw [named] at called
  replace called : function.over first ctx records = (do
      let n ← arg.count evaluate { ctx with data := .many records }
      pure (.number (Float.ofNat n))) := by
    refine called.trans ?_
    show (AggregateArgument.parse first >>= _) = _
    rw [parsed]
    rfl
  rw [called]
  constructor
  · intro found
    obtain ⟨n, count, found⟩ := exists_of_bind_eq_ok found
    obtain ⟨each, rfl⟩ := AggregateArgument.count_eq_ok_iff.mp count
    exact ⟨each, (Except.ok.inj found).symm⟩
  · rintro ⟨each, rfl⟩
    rw [AggregateArgument.count_eq_ok_iff.mpr ⟨each, rfl⟩]
    rfl

end Calls

/-! ## A field as an argument -/

/-- A record of an amount. -/
def amountRecord (x : Float) : Record := .ofList [("amount", .number x)]

/-- The argument `amount`. -/
def amountArgument : AggregateArgument := { value := [.field "amount"], condition := none }

namespace RecordValuesLemmas

theorem parse_amount : AggregateArgument.parse [.field "amount"] = .ok amountArgument := by
  with_unfolding_all rfl

theorem evaluate_amount (x : Float) :
    evaluate amountArgument.value (Context.simple.forRecord (amountRecord x)) = .ok (.number x) :=
  evaluate_field (by with_unfolding_all rfl) _

theorem worksOut_amount (x : Float) : amountArgument.WorksOut .simple (amountRecord x) :=
  ⟨by simp [amountArgument], fun _ _ => ⟨_, evaluate_amount x⟩⟩

theorem valueOf?_amountArgument (record : Record) : amountArgument.valueOf? .simple record =
    (evaluate amountArgument.value (Context.simple.forRecord record)).toOption :=
  if_pos rfl

theorem numberOf?_amount (x : Float) : amountArgument.numberOf? .simple (amountRecord x) = some x := by
  rw [AggregateArgument.numberOf?, valueOf?_amountArgument, evaluate_amount]
  rfl

theorem numbers_of_amounts (xs : List Float) :
    (xs.map amountRecord).filterMap (amountArgument.numberOf? .simple) = xs := by
  rw [List.filterMap_map]
  refine (List.filterMap_congr fun x _ => ?_).trans List.filterMap_some
  exact numberOf?_amount x

end RecordValuesLemmas

end RecordFormula
