import RecordFormula.Proofs.Overlooked
import RecordFormula.Proofs.Parts
import RecordFormula.Proofs.Validity

/-!
# Calls of a valid expression

A validation looks through all calls of the whole token list. An evaluation comes to them one by one, in
arguments, for each record and only in the branches it takes. Each call that it comes to is one that the
validation has accepted.

Results:
1. `onlyFails_resolve`: a part becomes terms unless a call or a name in it fails.
2. `onlyFails_evaluate`: where all calls are accepted, only the reasons of `Remains` are left.
3. `failures_of_valid`: so it is for the formulas of valid expressions.
-/

namespace RecordFormula

open CallsLemmas OverlookedLemmas ResolveLemmas

/-- Why a part whose calls are all accepted may have no value in a context. -/
def Remains (ctx : Context) : EvalError → Prop
  | .divisionByZero | .typeMismatch _ | .malformed _ => True
  | .unsupportedFunction _ | .argumentCount _ _ _ => False
  | .invalidArgument function cause => function = "MOVING_AVG" ∧ ∃ size, cause = .window size
  | .noRecordContext _ => ctx.data.record? = none
  | .missingField _ => ctx.strict = true

namespace DispatchLemmas

variable {ctx : Context} {eval : Evaluator} {t : Token} {ts : List Token} {call : Call}

theorem remains_of_values {reason : EvalError} (values : reason.isOfValues = true) :
    Remains ctx reason := by
  cases reason with
  | divisionByZero | typeMismatch => trivial
  | _ => simp [EvalError.isOfValues] at values

/-- For one record there is no reason that there is not for all of them. -/
theorem remains_of_forRecord {record : Record} {reason : EvalError}
    (remains : Remains (ctx.forRecord record) reason) : Remains ctx reason := by
  cases reason with
  | noRecordContext name => exact absurd remains (by simp [Remains, Context.forRecord, Data.record?])
  | _ => exact remains

theorem onlyFails_termOf {allowed : EvalError → Prop} (malformed : ∀ reason, allowed (.malformed reason))
    (names : ∀ name, OnlyFails allowed (ctx.fieldValue name)) : OnlyFails allowed (termOf ctx t) := by
  cases t with
  | field name =>
    rw [termOf]
    split
    · exact .error (malformed _)
    · exact (names name).bind fun _ _ => .ok _
  | function name => exact .error (malformed _)
  | _ => exact .ok _

theorem isWhere_of_termOf {term : Term} (found : termOf ctx t = .ok term) : t.isWhere = false := by
  cases t with
  | field name =>
    rw [termOf] at found
    split at found
    · exact absurd found (by simp)
    · rename_i free
      rw [isReserved, Bool.or_eq_true, not_or] at free
      simpa [Token.isWhere, Token.isKeyword] using free.1
  | _ => rfl

end DispatchLemmas

open DispatchLemmas

/-- A part becomes terms unless one of its calls or names fails. -/
theorem onlyFails_resolve {allowed : EvalError → Prop} {eval : Evaluator} {ctx : Context}
    {ts : List Token} (part : Part ts) (malformed : ∀ reason, allowed (.malformed reason))
    (names : ∀ name, OnlyFails allowed (ctx.fieldValue name))
    (calls : ∀ t behind call, t :: behind <:+ ts → Part (t :: behind) →
      startsCall (t :: behind) = true → Call.read (t :: behind) = .ok call →
      OnlyFails allowed (evaluateCall eval call ctx)) :
    OnlyFails allowed (resolve eval ctx ts) := by
  induction ts using resolve_induction with
  | nil =>
    rw [resolve]
    exact .ok _
  | unread t ts reason starts failed =>
    obtain ⟨call, found⟩ := part.exists_call starts
    exact absurd (failed.symm.trans found) (by simp)
  | call t ts call starts found ih =>
    rw [resolve_of_call starts found]
    refine (calls t ts call (List.suffix_refl _) part starts found).bind fun _ _ => ?_
    have rest : OnlyFails allowed (resolve eval ctx call.rest) :=
      ih (part.of_call starts found).1
        fun _ _ _ suffix => calls _ _ _ (suffix.trans (rest_suffix starts found))
    exact rest.bind fun _ _ => .ok _
  | plain t ts plain ih =>
    rw [resolve_of_plain plain]
    refine (onlyFails_termOf malformed names).bind fun term found => ?_
    have rest : OnlyFails allowed (resolve eval ctx ts) :=
      ih (part.tail (isWhere_of_termOf found))
        fun _ _ _ suffix => calls _ _ _ (suffix.trans (List.suffix_cons t ts))
    exact rest.bind fun _ _ => .ok _

namespace DispatchLemmas

variable {ctx : Context} {eval : Evaluator} {t : Token} {ts arg : List Token} {call : Call}

theorem onlyFails_names (name : String) : OnlyFails (Remains ctx) (ctx.fieldValue name) :=
  onlyFails_fieldValue (fun strict _ => strict) fun none => none

theorem onlyFailsIn_of_value
    (value : ∀ parsed, AggregateArgument.parse arg = .ok parsed →
      ∀ ctx, OnlyFails (Remains ctx) (eval parsed.value ctx)) :
    OnlyFailsIn (Remains ctx) eval ctx arg where
  parse := by
    unfold AggregateArgument.parse
    split
    · exact .ok _
    · split
      · exact .ok _
      · exact .error trivial
  matching parsed _ := by
    unfold AggregateArgument.matching
    split
    · exact .ok _
    · exact onlyFails_select (fun strict _ => strict) _ _
  value parsed found _ record _ :=
    (value parsed found (ctx.forRecord record)).mono fun _ => remains_of_forRecord

/-- A call that is accepted runs its function, and the function fails where its arguments do. -/
theorem onlyFails_evaluateCall (accepted : call.isAccepted = true)
    (wildcard : ∀ arg ∈ call.args, ∀ parsed, AggregateArgument.parse arg = .ok parsed →
      parsed.isWildcard = true → call.name = "COUNT")
    (whole : ∀ arg ∈ call.args, ∀ ctx, OnlyFails (Remains ctx) (eval arg ctx))
    (value : ∀ arg ∈ call.args, ∀ parsed, AggregateArgument.parse arg = .ok parsed →
      ∀ ctx, OnlyFails (Remains ctx) (eval parsed.value ctx)) :
    OnlyFails (Remains ctx) (evaluateCall eval call ctx) := by
  obtain ⟨spec, found, known, enough, run⟩ := exists_of_isAccepted accepted
  rw [run]
  refine onlyFails_run (fun _ => remains_of_values) known enough (fun size => ⟨rfl, size, rfl⟩) ?_
    (fun _ arg present => onlyFailsIn_of_value (value arg (List.mem_of_getElem? present)))
    (fun _ arg present => whole arg (List.mem_of_getElem? present) ctx)
    (fun _ _ arg mem => whole arg mem ctx)
  intro other arg parsed present parse isWildcard
  rw [wildcard arg (List.mem_of_getElem? present) parsed parse isWildcard] at found
  exact absurd (builtin_of_count found) other

/-- An accepted call in a part fails for the reasons of `Remains` only, if the parts inside it do. -/
theorem onlyFails_call (part : Part (t :: ts)) (starts : startsCall (t :: ts) = true)
    (found : Call.read (t :: ts) = .ok call) (accepted : call.isAccepted = true)
    (inside : ∀ inner, Part inner → inner.length < (t :: ts).length →
      callsIn inner ⊆ callsIn (t :: ts) → ∀ ctx, OnlyFails (Remains ctx) (eval inner ctx)) :
    OnlyFails (Remains ctx) (evaluateCall eval call ctx) := by
  obtain ⟨-, -, args⟩ := part.of_call starts found
  refine onlyFails_evaluateCall accepted
    (fun arg mem parsed => part.count_of_wildcard starts found mem) (fun arg mem => ?_)
    (fun arg mem parsed parse => ?_)
  · exact inside arg (args arg mem).1 (Call.arg_lt found mem) (callsIn_arg starts found mem)
  · obtain ⟨value, length, calls⟩ := (args arg mem).1.of_parse (isClosed_arg starts found mem) parse
    exact inside parsed.value value (Nat.lt_of_le_of_lt length (Call.arg_lt found mem))
      (List.Subset.trans calls (callsIn_arg starts found mem))

end DispatchLemmas

/-- An evaluation of a part comes to calls of the part only. If all of them are accepted, it has a value
or one of the reasons of `Remains` not to. -/
theorem onlyFails_evaluate {ts : List Token} (part : Part ts)
    (accepted : ∀ call ∈ callsIn ts, call.isAccepted = true) (ctx : Context) :
    OnlyFails (Remains ctx) (evaluate ts ctx) := by
  induction length : ts.length using Nat.strongRecOn generalizing ts ctx with
  | ind n ih =>
    subst length
    have terms : OnlyFails (Remains ctx) (resolve evaluate ctx ts) := by
      refine onlyFails_resolve part (fun _ => trivial) onlyFails_names ?_
      intro t behind call suffix there starts found
      have calls : callsIn (t :: behind) ⊆ callsIn ts := callsIn_subset_of_suffix suffix
      have isAccepted : call.isAccepted = true :=
        accepted { call with rest := [] } (calls (mem_callsIn starts found))
      refine onlyFails_call there starts found isAccepted fun inner isPart shorter inside ctx => ?_
      exact ih _ (Nat.lt_of_lt_of_le shorter suffix.length_le) isPart
        (fun call mem => accepted call (calls (inside mem))) ctx rfl
    rw [evaluate_eq]
    exact terms.bind fun terms _ =>
      onlyFails_reduce (fun _ => remains_of_values) (fun _ => trivial) terms

/-! ## Valid expressions -/

namespace DispatchLemmas

variable {limits other : Limits} {schema : Option Schema} {expression : String} {formula : Formula}

theorem isAccepted_of_callProblems {call : Call}
    (fine : callProblems ⟨call.name, call.args.length⟩ = []) : call.isAccepted = true := by
  rw [callProblems] at fine
  rw [Call.isAccepted]
  cases found : Catalog.standard.find? call.name with
  | none => simp [found] at fine
  | some spec =>
    rw [Option.any_some]
    cases fits : spec.arity.accepts call.args.length with
    | true => rfl
    | false => simp [found, FunctionSpec.checkArity, fits] at fine

theorem isAccepted_of_usable (usable : Usable limits schema formula) :
    ∀ call ∈ callsIn formula.tokens, call.isAccepted = true := by
  intro call mem
  refine isAccepted_of_callProblems (usable.calls _ ?_)
  rw [Formula.calls, callSites_eq]
  exact List.mem_map_of_mem mem

theorem onlyFails_execute (valid : (validate limits schema expression).isValid = true)
    (parsed : parse other expression = .ok formula) (ctx : Context) :
    OnlyFails (Remains ctx) (execute formula ctx) :=
  (onlyFails_evaluate (.of_wellFormed (parse_eq_ok_iff.mp parsed).wellFormed)
    (isAccepted_of_usable (usable_of_isValid valid parsed)) ctx).map

end DispatchLemmas

/-- A valid expression is never executed into a call of an unknown function or with the wrong number of
arguments, whatever the context. The only argument that can be wrong is the window of a moving average,
a single record is a context for every name, and only a strict context misses fields. -/
theorem failures_of_valid {limits other : Limits} {schema : Option Schema} {expression : String}
    {formula : Formula} (valid : (validate limits schema expression).isValid = true)
    (parsed : parse other expression = .ok formula) (ctx : Context) {reason : EvalError}
    (failed : execute formula ctx = .error reason) :
    (∀ name, reason ≠ .unsupportedFunction name) ∧
      (∀ function expected actual, reason ≠ .argumentCount function expected actual) ∧
      (∀ function cause, reason = .invalidArgument function cause →
        function = "MOVING_AVG" ∧ ∃ size, cause = .window size) ∧
      (∀ record, ctx.data = .single record → ∀ name, reason ≠ .noRecordContext name) ∧
      (ctx.strict = false → ∀ name, reason ≠ .missingField name) := by
  have remains : Remains ctx reason := onlyFails_execute valid parsed ctx reason failed
  refine ⟨?_, ?_, ?_, ?_, ?_⟩
  · rintro name rfl
    exact remains
  · rintro function expected actual rfl
    exact remains
  · rintro function cause rfl
    exact remains
  · rintro record single name rfl
    have none : ctx.data.record? = none := remains
    rw [single] at none
    exact absurd none (by simp [Data.record?])
  · rintro lenient name rfl
    exact absurd (lenient.symm.trans remains) (by simp)

/-- The ratio of a name to itself. -/
def nameRatio : Formula where
  expression := "RATIO(name, name)"
  tokens := [.function "RATIO", .operator .leftParen, .field "name", .operator .comma, .field "name",
    .operator .rightParen]

/-- For a record with a text for its name the ratio fails. That is for the text: the function is there, it
has its arguments, and the name is not missing. -/
theorem nameRatio_fails_for_text :
    execute nameRatio { data := .single (.ofList [("name", .text "x")]) } =
        .error (.typeMismatch (.notANumber (.text "x"))) ∧
      (∀ name, EvalError.typeMismatch (.notANumber (.text "x")) ≠ .unsupportedFunction name) ∧
      (∀ name, EvalError.typeMismatch (.notANumber (.text "x")) ≠ .noRecordContext name) ∧
      ∀ name, EvalError.typeMismatch (.notANumber (.text "x")) ≠ .missingField name := by
  have valid : (validate {} none nameRatio.expression).isValid = true := by with_unfolding_all rfl
  have parsed : parse {} nameRatio.expression = .ok nameRatio := by with_unfolding_all rfl
  have failed : execute nameRatio { data := .single (.ofList [("name", .text "x")]) } =
      .error (.typeMismatch (.notANumber (.text "x"))) := by
    with_unfolding_all rfl
  obtain ⟨noFunction, -, -, noContext, noField⟩ := failures_of_valid valid parsed _ failed
  exact ⟨failed, noFunction, noContext _ rfl, noField rfl⟩

end RecordFormula
