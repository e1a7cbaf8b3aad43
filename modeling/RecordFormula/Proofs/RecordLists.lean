import RecordFormula.Proofs.Comparisons

/-!
# Lists of records

An aggregate works out its value once for each of its records and then looks at the values only. So a
single record is to it a list of one, and a condition does no more than leave out the records that do
not pass it.

Results:
1. `execute_singleton`: over a list of one record a formula gives what it gives over the record, or
   finds that a name outside the aggregates means nothing.
2. `select_eq_filter`: a condition that has an answer for every record selects a sublist.
3. `evaluate_where`: an aggregate with a condition is the aggregate over the records that pass it, and
   `AND` is the conjunction of conditions.
-/

namespace RecordFormula

open NestingLemmas TreeLemmas

/-! ## One record -/

theorem alike_singleton (record : Record) (resolver : Resolver) (strict : Bool)
    (names : List String) :
    Alike (fun reason => ∃ name ∈ names, reason = .noRecordContext name) (· ∈ names)
      { data := .single record, schema := resolver, strict } { data := .many [record], schema := resolver, strict } where
  field name isRead := .instead ⟨name, isRead, rfl⟩
  records := .cons (fun _ _ => .self SameValue.refl _) .nil

/-- However names are looked up, a formula over a list of one record gives what it gives over the record, value
or error, or else it reads a name that means nothing over a list. So every value over the list is the value over
the record. -/
theorem execute_singleton (formula : Formula) (record : Record) (resolver : Resolver)
    (strict : Bool) :
    (execute formula { data := .many [record], schema := resolver, strict } =
        execute formula { data := .single record, schema := resolver, strict } ∨
      ∃ name ∈ formula.fields, execute formula { data := .many [record], schema := resolver, strict } =
        .error (.noRecordContext name)) ∧
    ∀ value, execute formula { data := .many [record], schema := resolver, strict } = .ok value →
      execute formula { data := .single record, schema := resolver, strict } = .ok value := by
  have follows := execute_follows formula (alike_singleton record resolver strict formula.fields)
  generalize execute formula { data := .single record, schema := resolver, strict } = alone at follows ⊢
  generalize execute formula { data := .many [record], schema := resolver, strict } = listed at follows ⊢
  cases follows with
  | ok same => exact ⟨.inl (congrArg Except.ok same.symm), fun value found => same ▸ found⟩
  | error => exact ⟨.inl rfl, fun value found => found⟩
  | instead failed =>
    obtain ⟨name, mem, rfl⟩ := failed
    exact ⟨.inr ⟨name, mem, rfl⟩, fun value found => absurd found (by simp)⟩

/-! ## Selected records -/

/-- Whether a record passes a condition. Where that has no answer it does not. -/
def Context.selects (ctx : Context) (condition : Condition) (record : Record) : Bool :=
  match ctx.satisfies condition record with
  | .ok keep => keep
  | .error _ => false

/-- A condition that has an answer for every record selects those that pass, in order. -/
theorem select_eq_filter {ctx : Context} {condition : Condition} {records : List Record}
    (answered : ∀ record ∈ records, ∃ keep, ctx.satisfies condition record = .ok keep) :
    ctx.select condition records = .ok (records.filter (ctx.selects condition)) := by
  induction records with
  | nil => rfl
  | cons record records ih =>
    obtain ⟨keep, answer⟩ := answered record List.mem_cons_self
    have rest := ih fun other mem => answered other (List.mem_cons_of_mem _ mem)
    have selects : ctx.selects condition record = keep := by rw [Context.selects, answer]
    rw [Context.select, answer, rest, List.filter_cons, selects]
    rfl

/-- The arguments of an aggregate. A moving average has the size of its window behind the first. -/
def Builtin.arguments (size : Float) (first : List Token) : Builtin → List (List Token)
  | .movingAverage => [first, [.number size]]
  | _ => [first]

namespace RecordListsLemmas

variable {ctx : Context} {condition : Condition} {records : List Record} {value : List Token}

theorem valuesOf_eq (data other : Data) (records : List Record) :
    AggregateArgument.valuesOf evaluate value { ctx with data } records =
      AggregateArgument.valuesOf evaluate value { ctx with data := other } records := by
  induction records with
  | nil => rfl
  | cons record records ih =>
    rw [AggregateArgument.valuesOf, AggregateArgument.valuesOf, ih]
    rfl

/-- What a record holds does not depend on the other records. -/
theorem satisfies_eq (data : Data) (condition : Condition) (record : Record) :
    ({ ctx with data } : Context).satisfies condition record = ctx.satisfies condition record := by
  unfold Context.satisfies
  induction condition.comparisons with
  | nil => rfl
  | cons comparison comparisons ih =>
    rw [Context.passes, Context.passes, ih]
    rfl

theorem selects_eq (data : Data) (condition : Condition) :
    ({ ctx with data } : Context).selects condition = ctx.selects condition := by
  funext record
  rw [Context.selects, Context.selects, satisfies_eq]

theorem matching_where (value : List Token)
    (answered : ∀ record ∈ records, ∃ keep, ctx.satisfies condition record = .ok keep) :
    AggregateArgument.matching { value, condition := some condition }
        { ctx with data := .many records } =
      .ok (records.filter (ctx.selects condition)) := by
  rw [← selects_eq (.many records)]
  exact select_eq_filter fun record mem => by simpa only [satisfies_eq] using answered record mem

/-- An argument with a condition has the numbers that it has without, over the records that pass. -/
theorem numbers_where (function : String)
    (answered : ∀ record ∈ records, ∃ keep, ctx.satisfies condition record = .ok keep) :
    AggregateArgument.numbers evaluate { value, condition := some condition } function
        { ctx with data := .many records } =
      AggregateArgument.numbers evaluate { value, condition := none } function
        { ctx with data := .many (records.filter (ctx.selects condition)) } := by
  unfold AggregateArgument.numbers AggregateArgument.values
  rw [matching_where value answered, AggregateArgument.matching]
  simp only [valuesOf_eq (.many records) (.many (records.filter (ctx.selects condition)))]
  rfl

theorem count_where
    (answered : ∀ record ∈ records, ∃ keep, ctx.satisfies condition record = .ok keep) :
    AggregateArgument.count evaluate { value, condition := some condition }
        { ctx with data := .many records } =
      AggregateArgument.count evaluate { value, condition := none }
        { ctx with data := .many (records.filter (ctx.selects condition)) } := by
  unfold AggregateArgument.count
  rw [matching_where value answered, AggregateArgument.matching]
  simp only [valuesOf_eq (.many records) (.many (records.filter (ctx.selects condition)))]
  rfl

theorem isArgument_arguments {size : Float} {arg : List Token} (builtin : Builtin)
    (isArgument : IsArgument arg) : ∀ other ∈ builtin.arguments size arg, IsArgument other := by
  intro other mem
  have first : other = arg ∨ other = [.number size] := by
    cases builtin <;> simp [Builtin.arguments] at mem <;> simp [mem]
  rcases first with rfl | rfl
  · exact isArgument
  · exact ⟨rfl, by simp⟩

theorem accepts_arguments {function : FunctionName} {size : Float} {arg : List Token}
    (aggregate : function.spec.mode = .aggregate) :
    function.spec.arity.accepts (function.spec.builtin.arguments size arg).length = true := by
  rw [function.arity_mode_eq.2] at aggregate
  rw [function.arity_mode_eq.1]
  cases named : function.spec.builtin
  all_goals first | rfl | exact absurd (named ▸ aggregate) (by simp [Builtin.mode])

theorem run_where {spec : FunctionSpec} {arg : List Token} (known : spec ∈ Catalog.standardFunctions)
    (aggregate : spec.mode = .aggregate) (size : Float)
    (filtered : AggregateArgument.parse arg = .ok { value, condition := some condition })
    (whole : AggregateArgument.parse value = .ok { value, condition := none })
    (answered : ∀ record ∈ records, ∃ keep, ctx.satisfies condition record = .ok keep) :
    spec.builtin.run evaluate (spec.builtin.arguments size arg) { ctx with data := .many records } =
      spec.builtin.run evaluate (spec.builtin.arguments size value)
        { ctx with data := .many (records.filter (ctx.selects condition)) } := by
  have reduces (builtin : Builtin) (reduction : List Float → Float) :
      Builtin.reduceNumbers evaluate builtin reduction [arg] { ctx with data := .many records } =
        Builtin.reduceNumbers evaluate builtin reduction [value]
          { ctx with data := .many (records.filter (ctx.selects condition)) } := by
    show (AggregateArgument.parse arg >>= _) = (AggregateArgument.parse value >>= _)
    rw [filtered, whole]
    show (AggregateArgument.numbers _ _ _ _ >>= _) = _
    rw [numbers_where _ answered]
    rfl
  simp only [Catalog.standardFunctions, List.mem_cons, List.not_mem_nil, or_false] at known
  rcases known with rfl | rfl | rfl | rfl | rfl | rfl | rfl | rfl | rfl | rfl
  · exact reduces .sum _
  · exact reduces .average _
  · show (AggregateArgument.parse arg >>= _) = (AggregateArgument.parse value >>= _)
    rw [filtered, whole]
    show (AggregateArgument.count _ _ _ >>= _) = _
    rw [count_where answered]
    rfl
  · exact reduces .minimum _
  · exact reduces .maximum _
  · show (AggregateArgument.parse arg >>= _) = (AggregateArgument.parse value >>= _)
    rw [filtered, whole]
    show (evaluate [.number size] _ >>= _) >>= _ = (evaluate [.number size] _ >>= _) >>= _
    rw [evaluate_number, evaluate_number]
    have isNumber : (Value.number size).toNumber = .ok size := rfl
    simp only [bind, Except.bind, isNumber]
    cases Builtin.window? size with
    | none => rfl
    | some window => rw [numbers_where _ answered]
  all_goals exact absurd aggregate (by simp)

end RecordListsLemmas

open RecordListsLemmas

/-- A call of an aggregate is worth what the aggregate makes of its first argument, which only a count may
leave out. -/
theorem evaluate_aggregate {function : FunctionName} (aggregate : function.spec.mode = .aggregate)
    {arg : List Token} (closed : isClosed Token.isComma 0 arg = true)
    (full : arg = [] → function.spec.builtin = .count) (size : Float) (ctx : Context) :
    evaluate (function.callTokens (function.spec.builtin.arguments size arg)) ctx =
      function.spec.builtin.run evaluate (function.spec.builtin.arguments size arg) ctx := by
  cases arg with
  | nil =>
    have counts := full rfl
    have fits : function.spec.arity.accepts 0 = true := by
      rw [function.arity_mode_eq.1, counts]
      rfl
    have empty : evaluate (function.callTokens []) ctx = _ := evaluate_callTokens (by simp) fits ctx
    rw [counts] at empty ⊢
    exact empty
  | cons t ts =>
    have isArgument : IsArgument (t :: ts) := ⟨closed, by simp⟩
    exact evaluate_callTokens (isArgument_arguments _ isArgument) (accepts_arguments aggregate) ctx

/-- A call of an aggregate with a condition, over records for which the condition has an answer, is the
call without the condition over the records that pass it. Two conditions joined by `AND` are passed by
the records that pass both; where absent fields are null they have an answer for every record. -/
theorem evaluate_where {function : FunctionName} (aggregate : function.spec.mode = .aggregate)
    (clause : WhereClause) {value : List Token}
    (closed : isClosed Token.endsArgument 0 value = true)
    (full : value = [] → function.spec.builtin = .count) (size : Float) {ctx : Context}
    {records : List Record}
    (answered : ∀ record ∈ records, ∃ keep, ctx.satisfies clause.condition record = .ok keep) :
    evaluate (function.callTokens (function.spec.builtin.arguments size
          (value ++ clause.keyword :: clause.tokens))) { ctx with data := .many records } =
        evaluate (function.callTokens (function.spec.builtin.arguments size value))
          { ctx with data := .many (records.filter (ctx.selects clause.condition)) } ∧
      ∀ (keyword : Token) (left right : List Token) (first second : Condition),
        clause.tokens = left ++ keyword :: right → keyword.isAnd = true →
        Condition.parse left = .ok first → Condition.parse right = .ok second →
        ctx.strict = false → ∀ record, ∃ keep keep',
          ctx.satisfies first record = .ok keep ∧ ctx.satisfies second record = .ok keep' ∧
            ctx.satisfies clause.condition record = .ok (keep && keep') := by
  have known := CallsLemmas.mem_of_find? function.found
  constructor
  · rw [evaluate_aggregate aggregate (isClosed_carried clause closed) (by simp),
      evaluate_aggregate aggregate (isClosed_mono endsArgument_of_isComma closed) full]
    exact run_where known aggregate size (parse_where clause closed) (parse_value closed) answered
  · intro keyword left right first second joined isKeyword isFirst isSecond lenient record
    have isWritten := (Condition.written_of_parse isFirst).append isKeyword
      (Condition.written_of_parse isSecond)
    have both := Condition.parse_of_written isWritten
    rw [← joined, clause.parsed] at both
    refine ⟨_, _, Context.satisfies_of_lenient lenient _ _, Context.satisfies_of_lenient lenient _ _, ?_⟩
    rw [Except.ok.inj both, Context.satisfies_of_lenient lenient, List.all_append]

/-- The sum by its own name. -/
def sumFunction : FunctionName where
  token := .function "SUM"
  spec := { name := "SUM", arity := ⟨1, some 1⟩, mode := .aggregate, builtin := .sum
            description := "Sum of a value over all matching records"
            usage := "SUM(value [WHERE condition])" }
  isName := rfl
  found := by with_unfolding_all rfl

/-- The records that are overdue and late. -/
def overdueAndLate : WhereClause where
  keyword := .field "where"
  tokens := [.field "dpd", .operator .greater, .number 0, .field "and", .field "status",
    .operator .equal, .text "late"]
  condition := ⟨[⟨"dpd", .greater, .number 0⟩, ⟨"status", .equal, .text "late"⟩]⟩
  isWhere := rfl
  parsed := by with_unfolding_all rfl

/-- A record of an amount that is three days past due. -/
def overdueRecord (status : String) : Record :=
  .ofList [("amount", .number 5), ("dpd", .number 3), ("status", .text status)]

/-- Of two overdue records the total has only the one that is late. -/
theorem overdueAndLate_total :
    evaluate (sumFunction.callTokens
          [.field "amount" :: overdueAndLate.keyword :: overdueAndLate.tokens])
        { data := .many [overdueRecord "LATE", overdueRecord "paid"] } =
      evaluate (sumFunction.callTokens [[.field "amount"]])
        { data := .many [overdueRecord "LATE"] } ∧
    ∃ keep keep', Context.simple.satisfies ⟨[⟨"dpd", .greater, .number 0⟩]⟩ (overdueRecord "paid") =
        .ok keep ∧
      Context.simple.satisfies ⟨[⟨"status", .equal, .text "late"⟩]⟩ (overdueRecord "paid") =
        .ok keep' ∧
      Context.simple.satisfies overdueAndLate.condition (overdueRecord "paid") =
        .ok (keep && keep') := by
  have answered : ∀ record ∈ [overdueRecord "LATE", overdueRecord "paid"],
      ∃ keep, Context.simple.satisfies overdueAndLate.condition record = .ok keep :=
    fun _ _ => ⟨_, Context.satisfies_of_lenient rfl _ _⟩
  obtain ⟨filtered, joined⟩ := @evaluate_where sumFunction rfl overdueAndLate [.field "amount"] rfl
    (by simp) 0 .simple _ answered
  have selected : [overdueRecord "LATE", overdueRecord "paid"].filter
      (Context.simple.selects overdueAndLate.condition) = [overdueRecord "LATE"] := by
    with_unfolding_all rfl
  rw [selected] at filtered
  have overdue : Condition.parse [.field "dpd", .operator .greater, .number 0] =
      .ok ⟨[⟨"dpd", .greater, .number 0⟩]⟩ := by
    with_unfolding_all rfl
  have late : Condition.parse [.field "status", .operator .equal, .text "late"] =
      .ok ⟨[⟨"status", .equal, .text "late"⟩]⟩ := by
    with_unfolding_all rfl
  exact ⟨filtered, joined (.field "and") _ _ _ _ rfl rfl overdue late rfl _⟩

end RecordFormula
