import RecordFormula.Proofs.Checked
import RecordFormula.Proofs.Validity

/-!
# What the check overlooks

The check of the structure skips the condition of an argument. It does not ask whether an operator
waits in front of the `WHERE`, as it does in front of a comma and a closing parenthesis, and it lets
every argument of an aggregate have a condition, also the window of a moving average, which is
evaluated as it stands. These are the only two ways in which a formula that was read can turn out not
to be well formed when it is evaluated.

Results:
1. `not_malformed_of_covered`: where nothing is overlooked the evaluation finds nothing malformed.
2. `failsAtEnd_of_operators` and `failsAtEnd_of_where`: what is overlooked never has a value.
3. `malformed_only_where_overlooked`: both for formulas that have been read.
-/

namespace RecordFormula

open CallsLemmas CheckedLemmas CleanScanLemmas NestingLemmas ResolveLemmas RowsLemmas

/-- Whether the function of a call is there and takes this many arguments. -/
def Call.isAccepted (call : Call) : Bool :=
  (Catalog.standard.find? call.name).any (·.arity.accepts call.args.length)

/-- A part of the arguments of a call that is evaluated although the check has passed over its end.
What stands in front of that end is `complete`. -/
inductive Overlooked (args : List (List Token)) : (part complete : List Token) → Prop
  /-- Operators without a right side in front of a `WHERE`. -/
  | operators {arg complete tokens : List Token} {ops : List Operator} :
      args[0]? = some arg → splitWhere arg = some (complete ++ ops.map .operator, tokens) →
      ops ≠ [] → (∀ op ∈ ops, op.joins = true) → endsOpen complete = false →
      complete ++ ops.map .operator ≠ [.operator .star] →
      Overlooked args (complete ++ ops.map .operator) complete
  /-- The condition of a window. -/
  | window {arg value tokens : List Token} :
      args[1]? = some arg → splitWhere arg = some (value, tokens) → Overlooked args arg value

/-! ## What is covered -/

namespace OverlookedLemmas

variable {call : Call} {ctx : Context} {arg : List Token}

theorem exists_of_isAccepted (accepted : call.isAccepted = true) :
    ∃ spec, Catalog.standard.find? call.name = some spec ∧ spec ∈ Catalog.standardFunctions ∧
      spec.arity.min ≤ call.args.length ∧
      ∀ eval ctx, evaluateCall eval call ctx = spec.builtin.run eval call.args ctx := by
  obtain ⟨spec, found, fits⟩ := (Option.any_eq_true _ _).mp accepted
  refine ⟨spec, found, mem_of_find? found, ?_, fun _ _ => evaluateCall_of_accepts found fits⟩
  rw [Arity.accepts, Bool.and_eq_true, decide_eq_true_eq] at fits
  exact fits.1

theorem notMalformed_of_refused {eval : Evaluator} (refused : call.isAccepted = false) :
    NotMalformed (evaluateCall eval call ctx) := by
  rw [evaluateCall]
  cases found : Catalog.standard.find? call.name with
  | none => exact .error rfl
  | some spec =>
    rw [Call.isAccepted, found, Option.any_some] at refused
    show NotMalformed (spec.checkArity call.args.length >>= _)
    rw [FunctionSpec.checkArity, refused]
    exact .error rfl

/-- Only the built-in that counts is called `COUNT`. -/
theorem builtin_of_count {spec : FunctionSpec}
    (found : Catalog.standard.find? "COUNT" = some spec) : spec.builtin = .count := by
  have count : (Catalog.standard.find? "COUNT").map (·.builtin) = some .count := by decide
  rw [found] at count
  exact Option.some.inj count

/-- A list that ends with an operator is a list that does not, with operators behind it. -/
theorem exists_of_endsOpen {ts : List Token} (isOpen : endsOpen ts = true) :
    ∃ complete ops, ts = complete ++ ops.map .operator ∧ ops ≠ [] ∧
      (∀ op ∈ ops, op.joins = true) ∧ endsOpen complete = false := by
  induction length : ts.length generalizing ts with
  | zero =>
    rw [List.length_eq_zero_iff.mp length] at isOpen
    exact absurd isOpen (by simp [endsOpen])
  | succ n ih =>
    rcases List.eq_nil_or_concat ts with rfl | ⟨front, t, rfl⟩
    · exact absurd length (by simp)
    · obtain ⟨op, rfl, joins⟩ : ∃ op, t = .operator op ∧ op.joins = true := by
        cases t with
        | operator op => exact ⟨op, rfl, by simpa [endsOpen, Token.joins, Token.operator?] using isOpen⟩
        | _ => simp [endsOpen, Token.joins, Token.operator?] at isOpen
      cases more : endsOpen front with
      | false => exact ⟨front, [op], by simp, by simp, by simpa using joins, more⟩
      | true =>
        obtain ⟨complete, ops, rfl, full, all, closed⟩ := ih more (by simpa using length)
        refine ⟨complete, ops ++ [op], by simp, by simp, fun other mem => ?_, closed⟩
        rcases List.mem_append.mp mem with mem | mem
        · exact all other mem
        · obtain rfl := List.mem_singleton.mp mem
          exact joins

/-- The first argument of an aggregate, if the value in front of its condition does not end with an
operator. -/
theorem onlyFailsIn_of_sound {eval : Evaluator} {function : String}
    (sound : SoundArgument function arg)
    (whole : structuralErrors arg = [] → ∀ ctx, NotMalformed (eval arg ctx))
    (value : ∀ value tokens, splitWhere arg = some (value, tokens) → structuralErrors value = [] →
      ∀ ctx, NotMalformed (eval value ctx))
    (covered : ∀ value tokens, splitWhere arg = some (value, tokens) → endsOpen value = true →
      value = [.operator .star]) :
    OnlyFailsIn (fun reason => reason.isMalformed = false) eval ctx arg := by
  cases sound with
  | value plain wellFormed =>
    have parse : AggregateArgument.parse arg = .ok { value := arg, condition := none } := by
      rw [AggregateArgument.parse, plain]
    refine ⟨by rw [parse]; exact .ok _, fun parsed found => ?_, fun parsed found _ record _ => ?_⟩
    · obtain rfl := Except.ok.inj (parse.symm.trans found)
      exact .ok _
    · obtain rfl := Except.ok.inj (parse.symm.trans found)
      exact whole wellFormed _
  | wildcard =>
    refine ⟨.ok _, fun parsed found => ?_, fun parsed found isValue => ?_⟩
    · obtain rfl := Except.ok.inj found
      exact .ok _
    · obtain rfl := Except.ok.inj found
      exact absurd isValue (by simp [AggregateArgument.isWildcard])
  | @filtered _ front tokens condition split _ isCondition kinds =>
    have parse : AggregateArgument.parse arg =
        .ok { value := front, condition := some condition } := by
      rw [AggregateArgument.parse, split]
      simp [isCondition]
    refine ⟨by rw [parse]; exact .ok _, fun parsed found => ?_,
      fun parsed found isValue record _ => ?_⟩
    · obtain rfl := Except.ok.inj (parse.symm.trans found)
      exact onlyFails_select (fun _ _ => rfl) condition _
    · obtain rfl := Except.ok.inj (parse.symm.trans found)
      rcases kinds with ⟨-, rfl | rfl⟩ | isOpen | wellFormed
      · exact absurd isValue (by simp [AggregateArgument.isWildcard])
      · exact absurd isValue (by simp [AggregateArgument.isWildcard])
      · rw [covered front tokens split isOpen] at isValue
        exact absurd isValue (by simp [AggregateArgument.isWildcard])
      · exact value front tokens split wellFormed _

theorem notMalformed_of_sound {eval : Evaluator} {function : String}
    (sound : SoundArgument function arg) (noCount : function ≠ "COUNT")
    (plain : splitWhere arg = none ∨
      (Catalog.standard.find? function).any (·.mode == .aggregate) = false)
    (whole : structuralErrors arg = [] → ∀ ctx, NotMalformed (eval arg ctx)) :
    NotMalformed (eval arg ctx) := by
  cases sound with
  | value _ wellFormed => exact whole wellFormed ctx
  | wildcard count => exact absurd count noCount
  | filtered split aggregate _ _ =>
    rcases plain with none | scalar
    · rw [split] at none
      exact absurd none (by simp)
    · rw [aggregate] at scalar
      exact absurd scalar (by simp)

end OverlookedLemmas

open OverlookedLemmas

/-- A call whose arguments are covered by the check does not fail for its structure, if the arguments do
not and nothing in them is overlooked. -/
theorem notMalformed_evaluateCall {eval : Evaluator} {call : Call} {ctx : Context}
    (sound : ∀ arg ∈ call.args, SoundArgument call.name arg)
    (whole : ∀ arg ∈ call.args, structuralErrors arg = [] → ∀ ctx, NotMalformed (eval arg ctx))
    (value : ∀ arg ∈ call.args, ∀ value tokens, splitWhere arg = some (value, tokens) →
      structuralErrors value = [] → ∀ ctx, NotMalformed (eval value ctx))
    (covered : call.isAccepted = true → ∀ part complete, ¬ Overlooked call.args part complete) :
    NotMalformed (evaluateCall eval call ctx) := by
  cases accepted : call.isAccepted with
  | false => exact notMalformed_of_refused accepted
  | true =>
    have covered := covered accepted
    obtain ⟨spec, found, known, enough, run⟩ := exists_of_isAccepted accepted
    have noCount : spec.builtin ≠ .count → call.name ≠ "COUNT" := by
      intro other same
      rw [same] at found
      exact other (builtin_of_count found)
    rw [run]
    refine onlyFails_run (fun _ => EvalError.not_isMalformed_of_isOfValues) known enough
      (fun _ => rfl) (fun _ _ _ _ _ _ => rfl) (fun _ arg present => ?_) (fun moving arg present => ?_)
      (fun scalar other arg mem => ?_)
    · have mem := List.mem_of_getElem? present
      refine onlyFailsIn_of_sound (sound arg mem) (whole arg mem) (value arg mem) ?_
      intro front tokens split isOpen
      obtain ⟨complete, ops, rfl, full, joins, closed⟩ := exists_of_endsOpen isOpen
      by_cases star : complete ++ ops.map .operator = [.operator .star]
      · exact star
      · exact absurd (.operators present split full joins closed star) (covered _ _)
    · have mem := List.mem_of_getElem? present
      refine notMalformed_of_sound (sound arg mem) (noCount (by simp [moving])) (.inl ?_) (whole arg mem)
      cases split : splitWhere arg with
      | none => rfl
      | some parts => exact absurd (.window present split) (covered _ _)
    · refine notMalformed_of_sound (sound arg mem) (noCount other) (.inr ?_) (whole arg mem)
      rw [found, Option.any_some, beq_eq_false_iff_ne]
      exact scalar

/-- The evaluation of a well-formed list does not come to one that is not, if nothing is overlooked in
its calls. -/
theorem not_malformed_of_covered {ts : List Token} (wellFormed : structuralErrors ts = [])
    (covered : ∀ call ∈ callsIn ts, call.isAccepted = true →
      ∀ part complete, ¬ Overlooked call.args part complete) (ctx : Context) :
    NotMalformed (evaluate ts ctx) := by
  -- An argument is shorter than the list that its call is in, and so is the value in front of its
  -- condition. Both are well formed by themselves, and their calls are among those of the list.
  induction length : ts.length using Nat.strongRecOn generalizing ts ctx with
  | ind n ih =>
    subst length
    rw [evaluate_eq]
    refine notMalformed_evaluateLevel wellFormed ?_
    intro frames previous before t behind call suffix sound starts found
    have inside : callsIn (t :: behind) ⊆ callsIn ts := callsIn_subset_of_suffix suffix
    have shorter (arg : List Token) (mem : arg ∈ call.args) : arg.length < ts.length :=
      Nat.lt_of_lt_of_le (Call.arg_lt found mem) suffix.length_le
    refine notMalformed_evaluateCall (fun arg mem => sound.argument starts found mem)
      (fun arg mem wellFormed => ?_) (fun arg mem value tokens split wellFormed => ?_) ?_
    · have calls := List.Subset.trans (callsIn_arg starts found mem) inside
      intro ctx
      exact ih _ (shorter arg mem) wellFormed (fun call mem => covered call (calls mem)) ctx rfl
    · have closed := isClosed_arg starts found mem
      have calls := List.Subset.trans (callsIn_value closed split)
        (List.Subset.trans (callsIn_arg starts found mem) inside)
      have fewer : value.length < ts.length := by
        have argShorter := shorter arg mem
        obtain ⟨rest, rfl, -⟩ := exists_behind_value closed split
        rw [List.length_append] at argShorter
        omega
      exact fun ctx => ih _ fewer wellFormed (fun call mem => covered call (calls mem)) ctx rfl
    · exact covered { call with rest := [] } (inside (mem_callsIn starts found))

/-! ## What is overlooked -/

namespace OverlookedLemmas

variable {stop : Token → Bool} {depth : Nat} {ops : List Operator} {ctx : Context}
  {eval : Evaluator}

theorem isClosed_of_operators {front : List Token} (joins : ∀ op ∈ ops, op.joins = true)
    (closed : isClosed stop depth (front ++ ops.map .operator) = true) :
    isClosed stop depth front = true := by
  induction front generalizing depth with
  | nil =>
    rw [List.nil_append] at closed
    induction ops with
    | nil => exact closed
    | cons op ops ih =>
      rw [List.map_cons, isClosed_cons (isParen_of_joins (joins op List.mem_cons_self))] at closed
      exact ih (fun other mem => joins other (List.mem_cons_of_mem _ mem)) closed.2
  | cons t ts ih =>
    rw [List.cons_append] at closed
    rcases t.paren_cases with rfl | rfl | plain
    · have tail : isClosed stop (depth + 1) (ts ++ ops.map .operator) = true := closed
      exact ih tail
    · obtain ⟨depth, rfl, tail⟩ := isClosed_rightParen.mp closed
      exact isClosed_rightParen.mpr ⟨depth, rfl, ih tail⟩
    · obtain ⟨free, tail⟩ := (isClosed_cons plain).mp closed
      exact (isClosed_cons plain).mpr ⟨free, ih tail⟩

theorem resolve_where (eval : Evaluator) (ctx : Context) {keyword : Token} (ts : List Token)
    (isWhere : keyword.isWhere = true) :
    ∃ reason, resolve eval ctx (keyword :: ts) = .error (.malformed reason) := by
  cases keyword with
  | field name =>
    have reserved : isReserved name = true := by
      rw [isReserved, Bool.or_eq_true]
      exact .inl isWhere
    have plain : startsCall (.field name :: ts) = false := by
      cases starts : startsCall (.field name :: ts) with
      | false => rfl
      | true => exact absurd (startsCall_iff.mp starts).1 (by simp [Token.isCallName, reserved])
    refine ⟨.unexpectedToken name, ?_⟩
    rw [resolve_of_plain plain, termOf, reserved]
    rfl
  | _ => simp [Token.isWhere, Token.isKeyword] at isWhere

end OverlookedLemmas

/-- A part that is evaluated to the end although it is not well formed there: it has no value in any
context, and where what is in front of its end has one, the failure is that it is not well formed. -/
def FailsAtEnd (part complete : List Token) : Prop :=
  ∀ ctx, (∀ value, evaluate part ctx ≠ .ok value) ∧
    (complete = [] ∨ (∃ value, evaluate complete ctx = .ok value) →
      ∃ reason, evaluate part ctx = .error (.malformed reason))

theorem failsAtEnd_of_operators {stop : Token → Bool} {complete : List Token} {ops : List Operator}
    (full : ops ≠ []) (joins : ∀ op ∈ ops, op.joins = true)
    (closed : isClosed stop 0 complete = true) :
    FailsAtEnd (complete ++ ops.map .operator) complete := by
  intro ctx
  have next : (ops.map Token.operator).head? ≠ some (.operator .leftParen) := by
    cases ops with
    | nil => exact absurd rfl full
    | cons op ops => exact ne_leftParen_of_joins (joins op List.mem_cons_self)
  have plain : ∀ t ∈ ops.map Term.operator, Plain t := by
    intro t mem
    obtain ⟨op, isOp, rfl⟩ := List.mem_map.mp mem
    exact plain_of_joins (joins op isOp)
  have evaluated : evaluate (complete ++ ops.map .operator) ctx = (do
      let terms ← resolve evaluate ctx complete
      reduce (terms ++ ops.map .operator)) := by
    rw [evaluate_eq, evaluateLevel, resolve_append closed next, resolve_operators]
    cases resolve evaluate ctx complete <;> rfl
  rw [evaluated]
  constructor
  · intro value found
    obtain ⟨terms, -, reduced⟩ := exists_of_bind_eq_ok found
    obtain ⟨last, flat⟩ := exists_row_of_reduceFrom plain reduced
    exact no_value_of_operators full value flat
  · rintro (rfl | ⟨value, found⟩)
    · obtain ⟨reason, failed⟩ := malformed_reduceFlat full joins (.inl rfl)
      refine ⟨reason, ?_⟩
      rw [resolve, ← failed]
      exact reduceFrom_plain plain
    · rw [evaluate_eq] at found
      obtain ⟨terms, resolved, reduced⟩ := exists_of_bind_eq_ok found
      obtain ⟨last, flat, goesOn⟩ := reduceFrom_append reduced
      obtain ⟨reason, failed⟩ := malformed_reduceFlat full joins (.inr ⟨value, flat⟩)
      refine ⟨reason, ?_⟩
      rw [resolved, ← failed]
      exact (goesOn _).trans (reduceFrom_plain plain)

theorem failsAtEnd_of_where {stop : Token → Bool} {value tokens : List Token} {keyword : Token}
    (isWhere : keyword.isWhere = true) (closed : isClosed stop 0 value = true) :
    FailsAtEnd (value ++ keyword :: tokens) value := by
  intro ctx
  have next : (keyword :: tokens).head? ≠ some (Token.operator .leftParen) := by
    rintro ⟨⟩
    simp [Token.isWhere, Token.isKeyword] at isWhere
  obtain ⟨reason, failed⟩ := resolve_where evaluate ctx tokens isWhere
  have evaluated : evaluate (value ++ keyword :: tokens) ctx = (do
      let _ ← resolve evaluate ctx value
      .error (.malformed reason)) := by
    rw [evaluate_eq, evaluateLevel, resolve_append closed next, failed]
    cases resolve evaluate ctx value <;> rfl
  rw [evaluated]
  constructor
  · intro v found
    obtain ⟨_, -, impossible⟩ := exists_of_bind_eq_ok found
    exact absurd impossible (by simp)
  · rintro (rfl | ⟨v, found⟩)
    · exact ⟨reason, by rw [resolve]; rfl⟩
    · rw [evaluate_eq] at found
      obtain ⟨terms, resolved, -⟩ := exists_of_bind_eq_ok found
      exact ⟨reason, by rw [resolved]; rfl⟩

/-! ## Formulas -/

namespace OverlookedLemmas

theorem structuralErrors_of_parse {limits : Limits} {expression : String} {formula : Formula}
    (parsed : parse limits expression = .ok formula) : structuralErrors formula.tokens = [] :=
  (parse_eq_ok_iff.mp parsed).wellFormed

theorem isClosed_of_mem_callsIn {ts arg : List Token} {call : Call} (mem : call ∈ callsIn ts)
    (isArg : arg ∈ call.args) : isClosed Token.isComma 0 arg = true := by
  induction ts with
  | nil => exact absurd mem List.not_mem_nil
  | cons t ts ih =>
    rw [callsIn, List.mem_append] at mem
    rcases mem with here | behind
    · cases starts : startsCall (t :: ts) with
      | false => simp [starts] at here
      | true =>
        cases found : Call.read (t :: ts) with
        | error reason => simp [starts, found] at here
        | ok call' =>
          simp only [starts, if_true, found, List.mem_singleton] at here
          subst here
          exact isClosed_arg starts found isArg
    · exact ih behind

theorem failsAtEnd_of_overlooked {ts part complete : List Token} {call : Call}
    (mem : call ∈ callsIn ts) (overlooked : Overlooked call.args part complete) :
    FailsAtEnd part complete := by
  cases overlooked with
  | operators present split full joins _ _ =>
    have closed := isClosed_of_mem_callsIn mem (List.mem_of_getElem? present)
    obtain ⟨keyword, -, -, valueClosed, -⟩ := splitWhereFrom_eq_some closed split
    exact failsAtEnd_of_operators full joins (isClosed_of_operators joins valueClosed)
  | window present split =>
    have closed := isClosed_of_mem_callsIn mem (List.mem_of_getElem? present)
    obtain ⟨keyword, isWhere, rfl, valueClosed, -⟩ := splitWhereFrom_eq_some closed split
    exact failsAtEnd_of_where isWhere valueClosed

end OverlookedLemmas

/-- The evaluation of a formula that was read does not find it malformed, whatever the context, if the
check has overlooked nothing in a call with the right number of arguments. What it has overlooked fails
at its end wherever it is evaluated. -/
theorem malformed_only_where_overlooked {limits : Limits} {expression : String} {formula : Formula}
    (parsed : parse limits expression = .ok formula) :
    ((∀ call ∈ callsIn formula.tokens, call.isAccepted = true →
        ∀ part complete, ¬ Overlooked call.args part complete) →
      ∀ ctx reason, execute formula ctx ≠ .error (.malformed reason)) ∧
    ∀ call ∈ callsIn formula.tokens, ∀ part complete, Overlooked call.args part complete →
      FailsAtEnd part complete := by
  refine ⟨fun covered ctx reason failed => ?_, fun call mem part complete => ?_⟩
  · have fails := not_malformed_of_covered (structuralErrors_of_parse parsed) covered ctx
    have executed : NotMalformed (execute formula ctx) := fails.map
    exact absurd (executed _ failed) (by simp [EvalError.isMalformed])
  · exact failsAtEnd_of_overlooked mem

/-- A sum over named records that lacks its right side. -/
def unfinishedTotal : Formula where
  expression := "SUM(amount + WHERE name = 'x')"
  tokens := [.function "SUM", .operator .leftParen, .field "amount", .operator .plus,
    .field "WHERE", .field "name", .operator .equal, .text "x", .operator .rightParen]

/-- The sum is read. Its value has nothing to add for any record, and the evaluation says so only when a
record has the name. -/
theorem unfinishedTotal_is_overlooked :
    parse {} unfinishedTotal.expression = .ok unfinishedTotal ∧
      FailsAtEnd [.field "amount", .operator .plus] [.field "amount"] ∧
      execute unfinishedTotal { data := .single (.ofList [("name", .text "x")]) } =
        .error (.malformed (.incomplete .lastOperand)) := by
  have parsed : parse {} unfinishedTotal.expression = .ok unfinishedTotal := by
    with_unfolding_all rfl
  refine ⟨parsed, ?_, by with_unfolding_all rfl⟩
  have isCall : (⟨"SUM", [[.field "amount", .operator .plus, .field "WHERE", .field "name",
      .operator .equal, .text "x"]], []⟩ : Call) ∈ callsIn unfinishedTotal.tokens :=
    List.Mem.head _
  refine (malformed_only_where_overlooked parsed).2 _ isCall _ _ ?_
  have plus : ∀ op ∈ [Operator.plus], op.joins = true := by decide
  exact @Overlooked.operators _ _ [.field "amount"] _ [.plus] rfl rfl (List.cons_ne_nil _ _) plus rfl
    (by simp)

end RecordFormula
