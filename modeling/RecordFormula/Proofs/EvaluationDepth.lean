import RecordFormula.Proofs.Filters
import RecordFormula.Proofs.TwoRuns

/-!
# How deep evaluations go

An evaluation works out the arguments of the calls in its list, and these may hold calls again. What stands
between the parentheses of a call is nested less deeply than the list, so the limit on the nesting of an
expression, though it is checked on the characters, is a limit on evaluations inside evaluations.

Results:
1. `NestsWithin.of_isDeeper`: what is deeper is nested less.
2. `evaluateWithin_of_nestsWithin`: a list needs one level more than its parentheses are nested.
3. `Activation.AsksFor.isDeeper`: an evaluation asks for the values of deeper lists only.
4. `nesting_bounds_evaluation`: so the limit on nesting bounds the evaluation of a formula.
-/

namespace RecordFormula

open NestingLemmas CallsLemmas ParenthesesLemmas FiltersLemmas

/-! ## Nesting -/

/-- The parentheses of a list balance, and not more than `depth` of them are open at any place. -/
structure NestsWithin (depth : Nat) (ts : List Token) : Prop where
  balanced : Balanced ts
  bound : ∀ front, front <+: ts → level front ≤ depth

/-- What is deeper is nested less. -/
theorem NestsWithin.of_isDeeper {depth : Nat} {ts deeper : List Token} (nests : NestsWithin depth ts)
    (isDeeper : IsDeeper ts deeper) : ∃ less, depth = less + 1 ∧ NestsWithin less deeper := by
  induction isDeeper with
  | @argument t rest arg call suffix starts found mem =>
    have balanced := balanced_of_isClosed (IsDeeper.argument suffix starts found mem).closed
    obtain ⟨front, rfl⟩ := suffix
    obtain ⟨name, first, more, written, closed, args⟩ := exists_written_call starts found
    obtain ⟨rfl, rfl⟩ := List.cons.inj written
    have present : arg ∈ first :: more := by
      rw [args] at mem
      split at mem
      · exact absurd mem List.not_mem_nil
      · exact mem
    obtain ⟨index, present⟩ := List.mem_iff_getElem?.mp present
    obtain ⟨back, whole, -⟩ := withCommas_eq present
    have outside : 0 ≤ level front := nests.balanced.opened front (List.prefix_append _ _)
    have named : t.change = 0 := change_of_plain (isParen_of_isCallName (startsCall_iff.mp starts).1)
    have opens : (Token.operator .leftParen).change = 1 := rfl
    have others : 0 ≤ level (inFront ((first :: more).take index)) :=
      (balanced_of_isClosed (isClosed_withCommas closed)).opened _ (whole ▸ List.prefix_append _ _)
    have deeper (inside : List Token) (within : inside <+: arg) : level inside + 1 ≤ depth := by
      obtain ⟨behind, rfl⟩ := within
      have bound := nests.bound (front ++ t :: .operator .leftParen ::
        (inFront ((first :: more).take index) ++ inside)) (by simp [whole])
      simp only [level_append, level_cons, named, opens] at bound
      omega
    have one := deeper [] List.nil_prefix
    rw [level_nil] at one
    refine ⟨depth - 1, by omega, balanced, fun inside within => ?_⟩
    have := deeper inside within
    omega
  | @value arg value tokens inner split ih =>
    obtain ⟨less, same, nests⟩ := ih
    obtain ⟨behind, rfl, -⟩ := exists_behind_value inner.closed split
    exact ⟨less, same, balanced_of_isClosed (IsDeeper.value inner split).closed, fun front within =>
      nests.bound front (within.trans (List.prefix_append _ _))⟩

theorem nestsWithin_of_parse {limits : Limits} {expression : String} {formula : Formula}
    (parsed : parse limits expression = .ok formula) :
    NestsWithin limits.maxNesting formula.tokens := by
  obtain ⟨-, passed, read, -, -⟩ := parse_eq_ok_iff.mp parsed
  have nesting : nestingErrors limits expression = [] := (List.append_eq_nil_iff.mp passed).2
  rw [nestingErrors] at nesting
  split at nesting
  · exact absurd nesting (by simp)
  · rename_i depth found
    have short : depth ≤ limits.maxNesting := by
      split at nesting
      · exact absurd nesting (by simp)
      · omega
    rw [nestingDepth_eq_tokenNesting read] at found
    obtain ⟨balanced, deepest⟩ := tokenNesting_eq_some_iff.mp found
    refine ⟨balanced, fun front within => ?_⟩
    have := deepest.bound front within
    omega

/-! ## Levels of evaluation -/

/-- A list needs one level more than its parentheses are nested: what lies beyond is never asked. -/
theorem evaluateWithin_of_nestsWithin (beyond : Evaluator) {depth : Nat} {ts : List Token}
    (nests : NestsWithin depth ts) :
    FollowsOn (fun _ => False) (fun _ => True) (evaluateWithin beyond (depth + 1)) evaluate ts := by
  induction depth generalizing ts with
  | zero =>
    intro first second alike
    rw [evaluate_eq]
    refine evaluateLevel_follows (fun arg isDeeper => ?_) (fun _ _ => trivial) _ _ alike
    obtain ⟨less, impossible, -⟩ := nests.of_isDeeper isDeeper
    exact absurd impossible (by simp)
  | succ depth ih =>
    intro first second alike
    rw [evaluate_eq]
    refine evaluateLevel_follows (fun arg isDeeper => ?_) (fun _ _ => trivial) _ _ alike
    obtain ⟨less, same, nests⟩ := nests.of_isDeeper isDeeper
    obtain rfl := Nat.succ.inj same
    exact ih nests

/-! ## What an evaluation asks for -/

/-- A token list whose value is worked out in a context. -/
structure Activation where
  tokens : List Token
  ctx : Context

/-- An evaluation asks for the value of another: if that alone were something else, then so would be what
it comes to. As a failure of what is asked for is a failure of what asks, nothing is asked for in vain. -/
def Activation.AsksFor (outer inner : Activation) : Prop :=
  ∃ eval : Evaluator,
    (∀ ts ctx, Activation.mk ts ctx ≠ inner → eval ts ctx = evaluate ts ctx) ∧
    evaluateLevel eval outer.tokens outer.ctx ≠ evaluate outer.tokens outer.ctx

/-- An evaluation asks for the values of deeper lists only. -/
theorem Activation.AsksFor.isDeeper {outer inner : Activation} (asks : outer.AsksFor inner) :
    IsDeeper outer.tokens inner.tokens := by
  obtain ⟨eval, same, differs⟩ := asks
  by_contra shallow
  have follows : FollowsOn (fun _ => False) (fun _ => True) (evaluateLevel eval)
      (evaluateLevel evaluate) outer.tokens := by
    refine evaluateLevel_follows (fun arg isDeeper first second alike => ?_) fun _ _ => trivial
    have other : Activation.mk arg first ≠ inner := by
      rintro rfl
      exact shallow isDeeper
    rw [same arg first other]
    exact evaluate_follows (fun _ _ => trivial) _ _ alike
  refine differs ?_
  rw [evaluate_eq]
  exact (follows _ _ (.refl _)).eq_of_never

/-- What fails whenever another evaluation fails asks for its value. -/
theorem Activation.asksFor_of_fails {outer inner : Activation}
    (fails : ∀ (eval : Evaluator) (reason : EvalError), eval inner.tokens inner.ctx = .error reason →
      evaluateLevel eval outer.tokens outer.ctx = .error reason) : outer.AsksFor inner := by
  classical
  have differs (reason : EvalError) (other : evaluate outer.tokens outer.ctx ≠ .error reason) :
      outer.AsksFor inner := by
    refine ⟨fun ts ctx => if Activation.mk ts ctx = inner then .error reason else evaluate ts ctx,
      fun ts ctx apart => if_neg apart, ?_⟩
    rw [fails _ reason (if_pos rfl)]
    exact other.symm
  by_cases zero : evaluate outer.tokens outer.ctx = .error .divisionByZero
  · exact differs (.unsupportedFunction "") (by simp [zero])
  · exact differs .divisionByZero zero

namespace EvaluationDepthLemmas

variable {eval : Evaluator} {ctx : Context} {reason : EvalError}

theorem asksFor_of_call {t : Token} {ts : List Token} {call : Call} {inner : Activation}
    (starts : startsCall (t :: ts) = true) (found : Call.read (t :: ts) = .ok call)
    (fails : ∀ (eval : Evaluator) (reason : EvalError), eval inner.tokens inner.ctx = .error reason →
      evaluateCall eval call ctx = .error reason) :
    Activation.AsksFor ⟨t :: ts, ctx⟩ inner := by
  refine Activation.asksFor_of_fails fun eval reason failed => ?_
  rw [evaluateLevel, resolve_of_call starts found, fails eval reason failed]
  rfl

theorem reduceNumbers_of_failing {builtin : Builtin} {reduction : List Float → Float}
    {arg : List Token} {parsed : AggregateArgument} {record : Record} {records : List Record}
    (found : AggregateArgument.parse arg = .ok parsed) (isValue : parsed.isWildcard = false)
    (matched : parsed.matching ctx = .ok (record :: records))
    (failed : eval parsed.value (ctx.forRecord record) = .error reason) :
    builtin.reduceNumbers eval reduction [arg] ctx = .error reason := by
  have values : parsed.values eval builtin.name ctx = .error reason := by
    rw [AggregateArgument.values, isValue, matched]
    show AggregateArgument.valuesOf eval parsed.value ctx (record :: records) = _
    rw [AggregateArgument.valuesOf, failed]
    rfl
  have numbers : parsed.numbers eval builtin.name ctx = .error reason := by
    rw [AggregateArgument.numbers, values]
    rfl
  show AggregateArgument.parse arg >>= _ = _
  rw [found]
  show parsed.numbers eval builtin.name ctx >>= _ = _
  rw [numbers]
  rfl

end EvaluationDepthLemmas

open EvaluationDepthLemmas

/-! ## Evaluations inside one another -/

/-- Evaluations inside one another are not more than the nesting of the outermost, and that one. -/
theorem length_le_of_chain {depth : Nat} {outer : Activation} {inner : List Activation}
    (nests : NestsWithin depth outer.tokens)
    (chain : List.IsChain Activation.AsksFor (outer :: inner)) : inner.length ≤ depth := by
  induction inner generalizing depth outer with
  | nil => exact Nat.zero_le depth
  | cons next inner ih =>
    obtain ⟨asks, chain⟩ := List.isChain_cons_cons.mp chain
    obtain ⟨less, rfl, nestsNext⟩ := nests.of_isDeeper asks.isDeeper
    exact Nat.succ_le_succ (ih nestsNext chain)

/-- The limit on the nesting of an expression bounds the evaluation of its formula: over whatever data, not
more evaluations than that and one are inside one another, and whatever would be answered beyond so many
levels, the value is the same. -/
theorem nesting_bounds_evaluation {limits : Limits} {expression : String} {formula : Formula}
    (parsed : parse limits expression = .ok formula) (ctx : Context) :
    (∀ inner : List Activation, List.IsChain Activation.AsksFor (⟨formula.tokens, ctx⟩ :: inner) →
      (Activation.mk formula.tokens ctx :: inner).length ≤ limits.maxNesting + 1) ∧
    ∀ beyond : Evaluator,
      (evaluateWithin beyond (limits.maxNesting + 1) formula.tokens ctx).map Value.orZero =
        execute formula ctx := by
  have nests := nestsWithin_of_parse parsed
  constructor
  · intro inner chain
    exact Nat.succ_le_succ (length_le_of_chain nests chain)
  · intro beyond
    have same := evaluateWithin_of_nestsWithin beyond nests ctx ctx (.refl ctx)
    rw [execute, same.eq_of_never]

/-- The fee where something is late, and else the amount. -/
def feeOrAmount : List Token :=
  [.function "IF", .operator .leftParen, .field "late", .operator .comma, .field "fee",
    .operator .comma, .field "amount", .operator .rightParen]

/-- The total of these. -/
def feesAndAmounts : Formula where
  expression := "SUM(IF(late, fee, amount))"
  tokens := .function "SUM" :: .operator .leftParen :: (feeOrAmount ++ [.operator .rightParen])

/-- What the total of one record has inside it: the value of the record, and inside that its condition. -/
def insideTotal : List Activation :=
  [⟨feeOrAmount, { data := .single .empty }⟩, ⟨[.field "late"], { data := .single .empty }⟩]

/-- The bound is met: where not more than two parentheses may be open, the total of a record takes three
evaluations inside one another. -/
theorem feesAndAmounts_meets_bound :
    (List.IsChain Activation.AsksFor
        (⟨feesAndAmounts.tokens, { data := .many [.empty] }⟩ :: insideTotal) ∧
      insideTotal.length = 2) ∧
    (∀ inner : List Activation, List.IsChain Activation.AsksFor
        (⟨feesAndAmounts.tokens, { data := .many [.empty] }⟩ :: inner) → inner.length + 1 ≤ 2 + 1) ∧
    ∀ beyond : Evaluator,
      (evaluateWithin beyond 3 feesAndAmounts.tokens { data := .many [.empty] }).map Value.orZero =
        execute feesAndAmounts { data := .many [.empty] } := by
  have parsed : parse { maxNesting := 2 } feesAndAmounts.expression = .ok feesAndAmounts := by
    with_unfolding_all rfl
  have total : Call.read feesAndAmounts.tokens = .ok ⟨"SUM", [feeOrAmount], []⟩ := by
    with_unfolding_all rfl
  have branch : Call.read feeOrAmount =
      .ok ⟨"IF", [[.field "late"], [.field "fee"], [.field "amount"]], []⟩ := by
    with_unfolding_all rfl
  have value : AggregateArgument.parse feeOrAmount = .ok ⟨feeOrAmount, none⟩ := by
    with_unfolding_all rfl
  have first : Activation.AsksFor ⟨feesAndAmounts.tokens, { data := .many [.empty] }⟩
      ⟨feeOrAmount, { data := .single .empty }⟩ := by
    refine asksFor_of_call rfl total fun eval reason failed => ?_
    have known : Catalog.standard.find? "SUM" = some Catalog.standardFunctions[0] := by
      with_unfolding_all rfl
    refine Eq.trans (evaluateCall_of_accepts known rfl) ?_
    exact reduceNumbers_of_failing value rfl rfl failed
  have second : Activation.AsksFor ⟨feeOrAmount, { data := .single .empty }⟩
      ⟨[.field "late"], { data := .single .empty }⟩ := by
    refine asksFor_of_call rfl branch fun eval reason failed => ?_
    have known : Catalog.standard.find? "IF" = some Catalog.standardFunctions[6] := by
      with_unfolding_all rfl
    refine Eq.trans (evaluateCall_of_accepts known rfl) ?_
    show eval [.field "late"] _ >>= _ = _
    rw [failed]
    rfl
  exact ⟨⟨.cons_cons first (.cons_cons second (.singleton _)), rfl⟩,
    nesting_bounds_evaluation parsed { data := .many [.empty] }⟩

end RecordFormula
