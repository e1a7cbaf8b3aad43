import RecordFormula.Proofs.Lockstep
import RecordFormula.Proofs.Names
import RecordFormula.Proofs.Resolve

/-!
# Two runs

Two evaluations of one token list, over contexts that differ where the list does not look. `Follows`
says that the second gives what the first gives, unless it fails for a reason that is allowed; with no
reason allowed the two are equal. Contexts are `Alike` if what is looked up in them follows.

The functions of the catalog go in lockstep over alike contexts, and there is one lemma for each function
of the evaluation around them. The evaluators of the arguments differ too, so the lemmas also say that an
evaluation does not depend on the levels it is allowed.

Results:
1. `Follows.bind`: runs follow each other if their parts do.
2. `evaluateLevel_follows`: one level of evaluation depends on what is deeper only through its value.
3. `evaluate_eq`: the levels of an evaluation are never used up.
4. `evaluate_follows` and `execute_follows`: over contexts that are alike in the names that are read,
   the evaluations of a list and the runs of a formula follow each other.
-/

namespace RecordFormula

open CallsLemmas NamesLemmas

/-- What the second run comes to when the first comes to `x`. -/
inductive Follows (allowed : EvalError → Prop) {α β : Type} (R : α → β → Prop) :
    Except EvalError α → Except EvalError β → Prop
  | ok {a : α} {b : β} : R a b → Follows allowed R (.ok a) (.ok b)
  | error {reason : EvalError} : Follows allowed R (.error reason) (.error reason)
  /-- Whatever the first run gives, the second may fail for an allowed reason. -/
  | instead {x : Except EvalError α} {reason : EvalError} :
      allowed reason → Follows allowed R x (.error reason)

namespace Follows

variable {α β γ δ : Type} {allowed : EvalError → Prop} {R : α → β → Prop} {S : γ → δ → Prop}
  {x : Except EvalError α} {y : Except EvalError β}

theorem self {T : α → α → Prop} (related : ∀ a, T a a) (x : Except EvalError α) :
    Follows allowed T x x := by
  cases x with
  | error reason => exact .error
  | ok a => exact .ok (related a)

theorem refl (x : Except EvalError α) : Follows allowed Eq x x := self (fun _ => rfl) x

theorem bind {f : α → Except EvalError γ} {g : β → Except EvalError δ}
    (first : Follows allowed R x y)
    (second : ∀ a b, x = .ok a → y = .ok b → R a b → Follows allowed S (f a) (g b)) :
    Follows allowed S (x >>= f) (y >>= g) := by
  cases first with
  | ok related => exact second _ _ rfl rfl related
  | error => exact .error
  | instead isAllowed => exact .instead isAllowed

theorem bind_eq {z : Except EvalError α} {f g : α → Except EvalError γ}
    (first : Follows allowed Eq x z) {T : γ → γ → Prop}
    (second : ∀ a, x = .ok a → Follows allowed T (f a) (g a)) :
    Follows allowed T (x >>= f) (z >>= g) :=
  first.bind fun a _ found _ same => same ▸ second a found

theorem bind_same {f g : α → Except EvalError γ} {T : γ → γ → Prop}
    (second : ∀ a, x = .ok a → Follows allowed T (f a) (g a)) :
    Follows allowed T (x >>= f) (x >>= g) :=
  (refl x).bind_eq second

theorem map {f : α → γ} {g : β → δ} (first : Follows allowed R x y)
    (related : ∀ a b, R a b → S (f a) (g b)) : Follows allowed S (x.map f) (y.map g) := by
  cases first with
  | ok same => exact .ok (related _ _ same)
  | error => exact .error
  | instead isAllowed => exact .instead isAllowed

theorem eq_of_never {y : Except EvalError α} (follows : Follows (fun _ => False) Eq x y) :
    x = y := by
  cases follows with
  | ok same => rw [same]
  | error => rfl
  | instead impossible => exact absurd impossible id

end Follows

/-- Runs that follow each other do so step by step. -/
def Lockstep.follows (allowed : EvalError → Prop) : Lockstep where
  Relates := Follows allowed
  ok := .ok
  error _ := .error
  bind := .bind

/-! ## Contexts -/

/-- Two fields with the same value, an absent one being as good as null. -/
def SameValue (field other : Option FieldValue) : Prop := field.getD .null = other.getD .null

theorem SameValue.refl (field : Option FieldValue) : SameValue field field := rfl

/-- Two records that hold alike under the names that are read. -/
def SameReads (allowed : EvalError → Prop) (reads : String → Prop) (first second : Context)
    (record other : Record) : Prop :=
  ∀ name, reads name →
    Follows allowed SameValue (first.lookup record name) (second.lookup other name)

/-- Two contexts in which the names that are read mean the same. -/
structure Alike (allowed : EvalError → Prop) (reads : String → Prop) (first second : Context) :
    Prop where
  field : ∀ name, reads name → Follows allowed Eq (first.fieldValue name) (second.fieldValue name)
  records : List.Forall₂ (SameReads allowed reads first second) first.data.records
    second.data.records

variable {allowed : EvalError → Prop} {reads : String → Prop} {first second : Context}

theorem Alike.refl (ctx : Context) : Alike allowed reads ctx ctx where
  field _ _ := .refl _
  records := List.forall₂_same.mpr fun record _ name _ =>
    .self SameValue.refl (ctx.lookup record name)

theorem Alike.forRecord {record other : Record}
    (same : SameReads allowed reads first second record other) :
    Alike allowed reads (first.forRecord record) (second.forRecord other) where
  field name isRead := (same name isRead).bind fun _ _ _ _ value =>
    .ok (congrArg Value.ofField value)
  records := .cons same .nil

theorem passes_follows {record other : Record} {comparisons : List Comparison}
    (same : SameReads allowed reads first second record other)
    (read : ∀ comparison ∈ comparisons, reads comparison.field) :
    Follows allowed Eq (first.passes record comparisons) (second.passes other comparisons) := by
  induction comparisons with
  | nil => exact .refl _
  | cons comparison comparisons ih =>
    have field := same comparison.field (read comparison List.mem_cons_self)
    refine field.bind fun value value' _ _ holds => ?_
    rw [SameValue] at holds
    rw [holds]
    split
    · exact ih fun other mem => read other (List.mem_cons_of_mem _ mem)
    · exact .refl _

/-- The records selected in the one context and in the other are alike, one by one. -/
theorem select_follows {records others : List Record} {condition : Condition}
    (same : List.Forall₂ (SameReads allowed reads first second) records others)
    (read : ∀ comparison ∈ condition.comparisons, reads comparison.field) :
    Follows allowed (List.Forall₂ (SameReads allowed reads first second))
      (first.select condition records) (second.select condition others) := by
  induction same with
  | nil => exact .ok .nil
  | cons head _ ih =>
    refine (passes_follows head read).bind_eq fun keep _ => ?_
    refine ih.bind fun rest rest' _ _ tail => .ok ?_
    cases keep with
    | true => exact .cons head tail
    | false => exact tail

/-! ## Functions -/

/-- Two evaluators that follow each other on a token list. -/
def FollowsOn (allowed : EvalError → Prop) (reads : String → Prop) (eval eval' : Evaluator)
    (ts : List Token) : Prop :=
  ∀ first second, Alike allowed reads first second →
    Follows allowed Eq (eval ts first) (eval' ts second)

/-- What a function may do with an argument: evaluate it, or its value where a condition holds. -/
structure FollowsIn (allowed : EvalError → Prop) (reads : String → Prop) (eval eval' : Evaluator)
    (arg : List Token) : Prop where
  whole : FollowsOn allowed reads eval eval' arg
  value : ∀ value tokens, splitWhere arg = some (value, tokens) →
    FollowsOn allowed reads eval eval' value
  condition : ∀ value tokens condition, splitWhere arg = some (value, tokens) →
    Condition.parse tokens = .ok condition →
    ∀ comparison ∈ condition.comparisons, reads comparison.field

section Functions

variable {eval eval' : Evaluator} {ts arg : List Token} {parsed : AggregateArgument}

theorem parse_eq_ok (found : AggregateArgument.parse arg = .ok parsed) :
    (splitWhere arg = none ∧ parsed = { value := arg, condition := none }) ∨
      ∃ value tokens condition, splitWhere arg = some (value, tokens) ∧
        Condition.parse tokens = .ok condition ∧
        parsed = { value, condition := some condition } := by
  rw [AggregateArgument.parse] at found
  split at found
  · rename_i whole
    exact .inl ⟨whole, (Except.ok.inj found).symm⟩
  · rename_i value tokens split
    split at found
    · rename_i condition isCondition
      exact .inr ⟨value, tokens, condition, split, isCondition, (Except.ok.inj found).symm⟩
    · simp at found

theorem value_follows (found : AggregateArgument.parse arg = .ok parsed)
    (follows : FollowsIn allowed reads eval eval' arg) :
    FollowsOn allowed reads eval eval' parsed.value := by
  rcases parse_eq_ok found with ⟨-, rfl⟩ | ⟨value, tokens, condition, split, -, rfl⟩
  · exact follows.whole
  · exact follows.value value tokens split

theorem matching_follows (alike : Alike allowed reads first second)
    (found : AggregateArgument.parse arg = .ok parsed)
    (follows : FollowsIn allowed reads eval eval' arg) :
    Follows allowed (List.Forall₂ (SameReads allowed reads first second))
      (parsed.matching first) (parsed.matching second) := by
  rcases parse_eq_ok found with ⟨-, rfl⟩ | ⟨value, tokens, condition, split, isCondition, rfl⟩
  · exact .ok alike.records
  · exact select_follows alike.records (follows.condition value tokens condition split isCondition)

theorem valuesOf_follows {records others : List Record}
    (follows : FollowsOn allowed reads eval eval' ts)
    (same : List.Forall₂ (SameReads allowed reads first second) records others) :
    Follows allowed Eq (AggregateArgument.valuesOf eval ts first records)
      (AggregateArgument.valuesOf eval' ts second others) := by
  induction same with
  | nil => exact .refl _
  | cons head _ ih =>
    refine (follows _ _ (Alike.forRecord head)).bind_eq fun value _ => ?_
    exact ih.bind_eq fun _ _ => .refl _

/-- An argument is as good for an aggregate in the one context as in the other. -/
theorem aggregates_follow (alike : Alike allowed reads first second)
    (found : AggregateArgument.parse arg = .ok parsed)
    (follows : FollowsIn allowed reads eval eval' arg) :
    AlikeAggregates (.follows allowed) eval eval' first second parsed parsed :=
  .of_matching rfl (matching_follows alike found follows) (fun _ _ same => same.length_eq)
    fun _ _ _ same => valuesOf_follows (value_follows found follows) same

theorem arguments_follow (alike : Alike allowed reads first second)
    (follows : FollowsIn allowed reads eval eval' arg) :
    AlikeArguments (.follows allowed) eval eval' first second arg arg where
  value := follows.whole first second alike
  parsed := by
    cases found : AggregateArgument.parse arg with
    | error reason => exact .error
    | ok parsed => exact .ok (aggregates_follow alike found follows)

theorem run_follows {args : List (List Token)} (builtin : Builtin)
    (alike : Alike allowed reads first second)
    (follows : ∀ arg ∈ args, FollowsIn allowed reads eval eval' arg) :
    Follows allowed Eq (builtin.run eval args first) (builtin.run eval' args second) := by
  have arguments : List.Forall₂ (AlikeArguments (.follows allowed) eval eval' first second) args args :=
    List.forall₂_same.mpr fun arg mem => arguments_follow alike (follows arg mem)
  exact run_lockstep arguments builtin alike.records.length_eq

end Functions

/-! ## Evaluations -/

/-- The lists that the evaluation of a list works out besides: the arguments of its calls and the values in
front of their conditions. -/
inductive IsDeeper (ts : List Token) : List Token → Prop
  | argument {t : Token} {rest arg : List Token} {call : Call} :
      t :: rest <:+ ts → startsCall (t :: rest) = true → Call.read (t :: rest) = .ok call →
      arg ∈ call.args → IsDeeper ts arg
  | value {arg value tokens : List Token} :
      IsDeeper ts arg → splitWhere arg = some (value, tokens) → IsDeeper ts value

namespace IsDeeper

variable {ts deeper : List Token}

theorem closed (isDeeper : IsDeeper ts deeper) : isClosed Token.isComma 0 deeper = true := by
  induction isDeeper with
  | argument _ starts found mem => exact isClosed_arg starts found mem
  | value _ split closed =>
    obtain ⟨_, -, -, valueClosed, -⟩ := splitWhereFrom_eq_some closed split
    exact isClosed_mono (fun t comma => by simp [Token.endsArgument, comma]) valueClosed

theorem length_lt (isDeeper : IsDeeper ts deeper) : deeper.length < ts.length := by
  induction isDeeper with
  | argument suffix _ found mem => exact Nat.lt_of_lt_of_le (Call.arg_lt found mem) suffix.length_le
  | value inner split shorter =>
    obtain ⟨behind, rfl, -⟩ := exists_behind_value inner.closed split
    rw [List.length_append] at shorter
    omega

theorem fieldNames_subset (isDeeper : IsDeeper ts deeper) : fieldNames deeper ⊆ fieldNames ts := by
  induction isDeeper with
  | argument suffix starts found mem =>
    exact List.Subset.trans (fieldNames_arg starts found mem) (fieldNames_suffix suffix)
  | value inner split inArg => exact List.Subset.trans (fieldNames_value inner.closed split) inArg

end IsDeeper

section Evaluations

variable {eval eval' : Evaluator} {t : Token} {ts : List Token} {call : Call}

theorem evaluateCall_follows (alike : Alike allowed reads first second)
    (follows : ∀ arg ∈ call.args, FollowsIn allowed reads eval eval' arg) :
    Follows allowed Eq (evaluateCall eval call first) (evaluateCall eval' call second) := by
  unfold evaluateCall
  split
  · exact .error
  · exact Follows.bind_same fun _ _ => run_follows _ alike follows

theorem termOf_follows (alike : Alike allowed reads first second)
    (plain : startsCall (t :: ts) = false) (read : ∀ name ∈ fieldNames (t :: ts), reads name) :
    Follows allowed Eq (termOf first t) (termOf second t) := by
  cases t with
  | field name =>
    unfold termOf
    dsimp only
    split
    · exact .error
    · rename_i reserved
      have isRead := read name (mem_fieldNames_head (by simpa using reserved) plain)
      exact (alike.field name isRead).bind_eq fun _ _ => .refl _
  | _ => exact .refl _

theorem followsIn_of_isDeeper {arg : List Token}
    (deeper : ∀ arg, IsDeeper ts arg → FollowsOn allowed reads eval eval' arg)
    (read : ∀ name ∈ fieldNames ts, reads name) (isDeeper : IsDeeper ts arg) :
    FollowsIn allowed reads eval eval' arg where
  whole := deeper arg isDeeper
  value value _ split := deeper value (.value isDeeper split)
  condition _ _ _ split isCondition _ mem := by
    have inArg := mem_fieldNames_of_condition isDeeper.closed split isCondition mem
    exact read _ (isDeeper.fieldNames_subset inArg)

theorem resolve_follows {rest : List Token} (alike : Alike allowed reads first second)
    (deeper : ∀ arg, IsDeeper ts arg → FollowsOn allowed reads eval eval' arg) (suffix : rest <:+ ts)
    (read : ∀ name ∈ fieldNames ts, reads name) :
    Follows allowed Eq (resolve eval first rest) (resolve eval' second rest) := by
  induction rest using resolve_induction with
  | nil =>
    rw [resolve, resolve]
    exact .refl _
  | unread t rest reason starts failed =>
    rw [resolve_of_unread starts failed, resolve_of_unread starts failed]
    exact .error
  | call t rest call starts found ih =>
    have called : Follows allowed Eq (evaluateCall eval call first) (evaluateCall eval' call second) :=
      evaluateCall_follows alike fun arg mem =>
        followsIn_of_isDeeper deeper read (.argument suffix starts found mem)
    rw [resolve_of_call starts found, resolve_of_call starts found]
    refine called.bind_eq fun value _ => ?_
    exact (ih ((rest_suffix starts found).trans suffix)).bind_eq fun _ _ => .refl _
  | plain t rest plain ih =>
    have here := fun name mem => read name (fieldNames_suffix suffix mem)
    rw [resolve_of_plain plain, resolve_of_plain plain]
    refine (termOf_follows alike plain here).bind_eq fun term _ => ?_
    exact (ih ((List.suffix_cons t rest).trans suffix)).bind_eq fun _ _ => .refl _

/-- One level of evaluation depends on what the deeper lists are worth, and on nothing else. -/
theorem evaluateLevel_follows
    (deeper : ∀ arg, IsDeeper ts arg → FollowsOn allowed reads eval eval' arg)
    (read : ∀ name ∈ fieldNames ts, reads name) :
    FollowsOn allowed reads (evaluateLevel eval) (evaluateLevel eval') ts :=
  fun _ _ alike =>
    (resolve_follows alike deeper List.suffix_rfl read).bind_eq fun _ _ => .refl _

end Evaluations

/-- More levels than a list has tokens make no difference to its value, and neither does what lies
beyond them. -/
theorem evaluateWithin_follows {beyond beyond' : Evaluator} {levels more : Nat} {ts : List Token}
    (enough : ts.length < levels) (alsoEnough : ts.length < more) :
    FollowsOn (fun _ => False) (fun _ => True) (evaluateWithin beyond levels)
      (evaluateWithin beyond' more) ts := by
  -- Each level takes one from both numbers, and its arguments are shorter by one token at least.
  induction levels generalizing more ts with
  | zero => omega
  | succ levels ih =>
    cases more with
    | zero => omega
    | succ more =>
      refine evaluateLevel_follows (fun arg isDeeper => ?_) fun _ _ => trivial
      have shorter := isDeeper.length_lt
      exact ih (by omega) (by omega)

/-- Evaluation is one level of evaluation, with itself for the arguments. -/
theorem evaluate_eq (ts : List Token) (ctx : Context) :
    evaluate ts ctx = evaluateLevel evaluate ts ctx := by
  have general : FollowsOn (fun _ => False) (fun _ => True) evaluate (evaluateLevel evaluate) ts :=
    evaluateLevel_follows
      (fun _ isDeeper => evaluateWithin_follows isDeeper.length_lt (Nat.lt_succ_self _))
      fun _ _ => trivial
  exact (general ctx ctx (.refl ctx)).eq_of_never

/-- Over contexts that are alike in the names it reads, the evaluations of a list follow each other. -/
theorem evaluate_follows {allowed : EvalError → Prop} {reads : String → Prop} {ts : List Token}
    (read : ∀ name ∈ fieldNames ts, reads name) :
    FollowsOn allowed reads evaluate evaluate ts := by
  induction length : ts.length using Nat.strongRecOn generalizing ts with
  | ind n ih =>
    subst length
    intro first second alike
    rw [evaluate_eq, evaluate_eq]
    exact evaluateLevel_follows (fun _ isDeeper =>
      ih _ isDeeper.length_lt (fun name mem => read name (isDeeper.fieldNames_subset mem)) rfl)
      read _ _ alike

/-- Over contexts that are alike in its fields, the runs of a formula follow each other. -/
theorem execute_follows {allowed : EvalError → Prop} (formula : Formula) {first second : Context}
    (alike : Alike allowed (· ∈ formula.fields) first second) :
    Follows allowed Eq (execute formula first) (execute formula second) := by
  have read : ∀ name ∈ fieldNames formula.tokens, name ∈ formula.fields := by
    intro name mem
    rwa [Formula.fields, fieldReferences, List.mem_eraseDups]
  exact (evaluate_follows read _ _ alike).map fun _ _ same => congrArg Value.orZero same

end RecordFormula
