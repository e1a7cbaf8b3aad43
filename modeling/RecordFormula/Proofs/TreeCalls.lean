import Mathlib.Data.List.Forall2
import RecordFormula.Proofs.Conditions
import RecordFormula.Proofs.Trees
import RecordFormula.Proofs.TwoRuns

/-!
# Calls of trees

The tokens of a tree close all their parentheses, and no comma and no `WHERE` stands outside them. So a
call that was written from trees is read as it was written, and what its function makes of the
arguments is what the function means for the trees.

Results:
1. `Tree.isClosed_tokens`: a tree is a closed list.
2. `FunctionName.read_callTokens`: a call is read as it was written.
3. `FunctionName.toOption_evaluateCall`: a call of arguments that mean something means what its
   function makes of that.
-/

namespace RecordFormula

open CallsLemmas NestingLemmas

/-! ## The tokens of a tree -/

namespace TreeLemmas

variable {stop : Token → Bool} {function : FunctionName}

theorem endsArgument_of_isComma (t : Token) (comma : t.isComma = true) : t.endsArgument = true := by
  rw [Token.endsArgument, comma, Bool.true_or]

theorem endsArgument_of_isWhere (t : Token) (keyword : t.isWhere = true) : t.endsArgument = true := by
  rw [Token.endsArgument, keyword, Bool.or_true]

theorem endsArgument_field {name : String} (free : isReserved name = false) :
    (Token.field name).endsArgument = false := by
  rw [isReserved, Bool.or_eq_false_iff] at free
  exact free.1

theorem endsArgument_name : function.token.endsArgument = false := by
  have isName := function.isName
  cases named : function.token with
  | function name => rfl
  | field name =>
    rw [named, Token.isCallName, Bool.not_eq_true'] at isName
    exact endsArgument_field isName
  | _ =>
    rw [named] at isName
    exact absurd isName (by simp [Token.isCallName])

/-- Arguments that are closed leave the parenthesis of their call to be closed. -/
theorem isClosed_withCommas {first : List Token} {more : List (List Token)}
    (closed : ∀ arg ∈ first :: more, isClosed Token.isComma 0 arg = true) :
    isClosed stop 1 (withCommas first more ++ [.operator .rightParen]) = true := by
  induction more generalizing first with
  | nil =>
    have written : withCommas first [] ++ [.operator .rightParen] =
        first ++ [.operator .rightParen] := by
      simp [withCommas]
    have group : isClosed stop 0 (.operator .leftParen :: (first ++ [.operator .rightParen])) = true :=
      isClosed_group (closed first List.mem_cons_self)
    rw [written]
    exact group
  | cons arg more ih =>
    have written : withCommas first (arg :: more) ++ [.operator .rightParen] =
        first ++ .operator .comma :: (withCommas arg more ++ [.operator .rightParen]) := by
      simp [withCommas]
    have passed : isClosed stop (1 + 0) (first ++ .operator .comma ::
          (withCommas arg more ++ [.operator .rightParen])) = _ :=
      isClosed_append (closed first List.mem_cons_self) (by simp)
    rw [written, passed]
    refine (isClosed_cons rfl).mpr ⟨by simp, ih fun other mem => closed other ?_⟩
    exact List.mem_cons_of_mem _ mem

theorem isClosed_callTokens {args : List (List Token)}
    (closed : ∀ arg ∈ args, isClosed Token.isComma 0 arg = true) :
    isClosed Token.endsArgument 0 (function.callTokens args) = true := by
  refine (isClosed_cons (isParen_of_isCallName function.isName)).mpr
    ⟨fun _ => endsArgument_name, ?_⟩
  cases args with
  | nil => rfl
  | cons first more => exact isClosed_withCommas closed

theorem isClosed_operators (op : BinaryOp) :
    isClosed Token.endsArgument 0 (op.operators.map .operator) = true := by
  cases op with
  | compare comparator => cases comparator <;> rfl
  | _ => rfl

theorem isClosed_signs (signs : List Sign) :
    isClosed Token.endsArgument 0 (signs.map (.operator ·.operator)) = true := by
  induction signs with
  | nil => rfl
  | cons sign signs ih => cases sign <;> exact ih

end TreeLemmas

open TreeLemmas

/-- What can stand between the commas of a call: something, and nothing that ends there. -/
structure IsArgument (ts : List Token) : Prop where
  closed : isClosed Token.isComma 0 ts = true
  full : ts ≠ []

/-- A call is read as it was written. -/
theorem FunctionName.read_callTokens {function : FunctionName} {args : List (List Token)}
    (each : ∀ arg ∈ args, IsArgument arg) :
    Call.read (function.callTokens args) =
      .ok { name := function.token.callName, args, rest := [] } := by
  unfold FunctionName.callTokens
  rw [read_eq function.isName]
  cases args with
  | nil => rfl
  | cons first more =>
    have read : Pieces.read? 0 (withCommas first more ++ [.operator .rightParen]) =
        some { first, more, rest := [] } :=
      read?_eq_some_iff.mpr ⟨(each first List.mem_cons_self).closed,
        fun arg mem => (each arg (List.mem_cons_of_mem _ mem)).closed, rfl⟩
    have full : first.isEmpty = false :=
      List.isEmpty_eq_false_iff.mpr (each first List.mem_cons_self).full
    simp [read, Pieces.args, full]

namespace TreeLemmas

theorem isClosed_behind {front back : List Token} (closed : isClosed stop 0 front = true)
    (rest : isClosed stop 0 back = true) : isClosed stop 0 (front ++ back) = true := by
  have passed : isClosed stop (0 + 0) (front ++ back) = isClosed stop 0 back :=
    isClosed_append closed fun _ _ ends => ends
  exact passed.trans rest

/-- A tree's tokens with a condition behind them are one argument. -/
theorem isClosed_carried {value : List Token} (clause : WhereClause)
    (closed : isClosed Token.endsArgument 0 value = true) :
    isClosed Token.isComma 0 (value ++ clause.keyword :: clause.tokens) = true := by
  refine isClosed_behind (isClosed_mono endsArgument_of_isComma closed) ?_
  exact (isClosed_cons (Token.isParen_of_isWhere clause.isWhere)).mpr
    ⟨fun _ => Token.isComma_of_isWhere clause.isWhere, isClosed_of_parse clause.parsed⟩

end TreeLemmas

/-- A tree closes all its parentheses, and has no comma and no `WHERE` outside them. -/
theorem Tree.isClosed_tokens {level : Nat} (tree : Tree level) :
    isClosed Token.endsArgument 0 tree.tokens = true := by
  induction tree with
  | tighter tree ih => exact ih
  | binary op left right ihl ihr =>
    exact isClosed_behind ihl (isClosed_behind (isClosed_operators op) ihr)
  | signed signs operand ih => exact isClosed_behind (isClosed_signs signs) ih
  | number | text => rfl
  | field name free =>
    exact (isClosed_cons rfl).mpr ⟨fun _ => endsArgument_field free, rfl⟩
  | group inner ih => exact isClosed_group ih
  | call function args ih =>
    refine isClosed_callTokens fun arg mem => ?_
    obtain ⟨i, rfl⟩ := List.mem_ofFn.mp mem
    exact isClosed_mono endsArgument_of_isComma (ih i)
  | filtered function aggregate value clause more ihv ihm =>
    refine isClosed_callTokens fun arg mem => ?_
    rcases List.mem_cons.mp mem with rfl | mem
    · exact isClosed_carried clause ihv
    · obtain ⟨i, rfl⟩ := List.mem_ofFn.mp mem
      exact isClosed_mono endsArgument_of_isComma (ihm i)

/-- A tree starts with something that is no star. -/
theorem Tree.exists_head {level : Nat} (tree : Tree level) :
    ∃ t rest, tree.tokens = t :: rest ∧ t ≠ .operator .star := by
  induction tree with
  | tighter tree ih => exact ih
  | binary op left right ihl ihr =>
    obtain ⟨t, rest, same, noStar⟩ := ihl
    exact ⟨t, _, by rw [Tree.tokens, same, List.cons_append], noStar⟩
  | signed signs operand ih =>
    cases signs with
    | nil => exact ih
    | cons sign signs => exact ⟨.operator sign.operator, _, rfl, by cases sign <;> simp [Sign.operator]⟩
  | number | text | field | group => exact ⟨_, _, rfl, by simp⟩
  | call function | filtered function =>
    refine ⟨function.token, _, rfl, fun star => ?_⟩
    have isName := function.isName
    rw [star] at isName
    exact absurd isName (by simp [Token.isCallName])

theorem Tree.isArgument {level : Nat} (tree : Tree level) : IsArgument tree.tokens := by
  obtain ⟨t, rest, same, -⟩ := tree.exists_head
  exact ⟨isClosed_mono endsArgument_of_isComma tree.isClosed_tokens, by simp [same]⟩

theorem Tree.isArgument_where {level : Nat} (tree : Tree level) (clause : WhereClause) :
    IsArgument (tree.tokens ++ clause.keyword :: clause.tokens) :=
  ⟨isClosed_carried clause tree.isClosed_tokens, by simp⟩

/-! ## What calls mean -/

/-- A token list is worth in every context what a tree is. -/
def Means (ts : List Token) (meaning : Meaning) : Prop :=
  ∀ ctx, (evaluate ts ctx).toOption = meaning ctx

/-- An argument is an expression with a condition, if there is one. -/
def MeansWhere (condition : Option Condition) (ts : List Token) (meaning : Meaning) : Prop :=
  ∃ value, AggregateArgument.parse ts = .ok { value, condition } ∧
    AggregateArgument.isWildcard { value, condition } = false ∧ Means value meaning

namespace TreeLemmas

variable {ctx : Context} {ts value : List Token} {meaning : Meaning} {condition : Option Condition}

theorem toOption_number (means : Means ts meaning) :
    (Evaluator.number evaluate ts ctx).toOption = meaning.number? ctx := by
  unfold Evaluator.number Meaning.number?
  rw [toOption_bind, means ctx]
  rfl

theorem toOption_valuesOf (means : Means value meaning) (records : List Record) :
    (AggregateArgument.valuesOf evaluate value ctx records).toOption =
      records.mapM fun record => meaning (ctx.forRecord record) := by
  induction records with
  | nil => rfl
  | cons record records ih =>
    rw [AggregateArgument.valuesOf, List.mapM_cons, ← ih, ← means (ctx.forRecord record)]
    cases evaluate value (ctx.forRecord record) with
    | error reason => rfl
    | ok v => cases AggregateArgument.valuesOf evaluate value ctx records <;> rfl

theorem toOption_matching (ctx : Context) (value : List Token) (condition : Option Condition) :
    (AggregateArgument.matching { value, condition } ctx).toOption = ctx.passing? condition := by
  cases condition <;> rfl

theorem toOption_values (isValue : AggregateArgument.isWildcard { value, condition } = false)
    (means : Means value meaning) (function : String) :
    (AggregateArgument.values evaluate { value, condition } function ctx).toOption =
      meaning.forEach condition ctx := by
  unfold AggregateArgument.values
  rw [isValue]
  simp only [Bool.false_eq_true, if_false, toOption_bind, toOption_matching, toOption_valuesOf means]
  rfl

theorem toOption_reduced (isValue : AggregateArgument.isWildcard { value, condition } = false)
    (means : Means value meaning) (function : String) (reduction : List Float → Float) :
    (do pure (.number (reduction
        (← AggregateArgument.numbers evaluate { value, condition } function ctx))) :
      Except EvalError Value).toOption = meaning.reduce reduction condition ctx := by
  unfold AggregateArgument.numbers Meaning.reduce
  simp only [toOption_bind, Option.bind_assoc, toOption_values isValue means]
  rfl

theorem toOption_reduceNumbers (means : MeansWhere condition ts meaning) (builtin : Builtin)
    (reduction : List Float → Float) (more : List (List Token)) :
    (Builtin.reduceNumbers evaluate builtin reduction (ts :: more) ctx).toOption =
      meaning.reduce reduction condition ctx := by
  obtain ⟨value, parsed, isValue, means⟩ := means
  have first : builtin.argument (ts :: more) 0 = .ok ts := rfl
  rw [← toOption_reduced isValue means builtin.name reduction]
  unfold Builtin.reduceNumbers
  simp only [first, parsed, bind, Except.bind]

theorem toOption_count (isValue : AggregateArgument.isWildcard { value, condition } = false)
    (means : Means value meaning) :
    (AggregateArgument.count evaluate { value, condition } ctx).toOption =
      (meaning.forEach condition ctx).bind fun values =>
        some (values.countP fun value => !value.isNull) := by
  unfold AggregateArgument.count Meaning.forEach
  simp only [isValue, Bool.false_eq_true, if_false, toOption_bind, toOption_matching,
    toOption_valuesOf means]
  exact (Option.bind_assoc ..).symm

theorem toOption_runCount (means : MeansWhere condition ts meaning) (more : List (List Token)) :
    (Builtin.runCount evaluate (ts :: more) ctx).toOption = meaning.count condition ctx := by
  obtain ⟨value, parsed, isValue, means⟩ := means
  show (AggregateArgument.parse ts >>= _).toOption = _
  rw [parsed]
  show (AggregateArgument.count evaluate { value, condition } ctx >>= _).toOption = _
  rw [toOption_bind, toOption_count isValue means, Option.bind_assoc]
  rfl

theorem toOption_runMovingAverage {size : List Token} {sizeMeaning : Meaning}
    (means : MeansWhere condition ts meaning) (sizeMeans : Means size sizeMeaning) :
    (Builtin.runMovingAverage evaluate [ts, size] ctx).toOption =
      meaning.movingAverage condition sizeMeaning ctx := by
  obtain ⟨value, parsed, isValue, means⟩ := means
  show (AggregateArgument.parse ts >>= _).toOption = _
  rw [parsed]
  show (Evaluator.number evaluate size ctx >>= _).toOption = _
  rw [toOption_bind, toOption_number sizeMeans]
  refine Option.bind_congr fun size _ => ?_
  cases Builtin.window? size with
  | none => rfl
  | some window => exact toOption_reduced isValue means _ _

theorem toOption_runChoose {choice yes no : List Token} {choiceMeaning yesMeaning noMeaning : Meaning}
    (choiceMeans : Means choice choiceMeaning) (yesMeans : Means yes yesMeaning)
    (noMeans : Means no noMeaning) :
    (Builtin.runChoose evaluate [choice, yes, no] ctx).toOption =
      choiceMeaning.choose yesMeaning noMeaning ctx := by
  show (evaluate choice ctx >>= _).toOption = _
  rw [toOption_bind, choiceMeans ctx]
  refine Option.bind_congr fun value _ => ?_
  cases value.isTruthy with
  | true => exact yesMeans ctx
  | false => exact noMeans ctx

theorem toOption_runQuotient {numerator denominator : List Token} {above below : Meaning}
    (aboveMeans : Means numerator above) (belowMeans : Means denominator below) (builtin : Builtin)
    (divide : Float → Float → Float) :
    (Builtin.runQuotient evaluate builtin divide [numerator, denominator] ctx).toOption =
      above.quotient divide below ctx := by
  show (Evaluator.number evaluate numerator ctx >>= _).toOption = _
  rw [toOption_bind, toOption_number aboveMeans]
  refine Option.bind_congr fun x _ => ?_
  show (Evaluator.number evaluate denominator ctx >>= _).toOption = _
  rw [toOption_bind, toOption_number belowMeans]
  rfl

end TreeLemmas

theorem MeansWhere.means {ts : List Token} {meaning : Meaning} (means : MeansWhere none ts meaning) :
    Means ts meaning := by
  obtain ⟨value, parsed, -, means⟩ := means
  rcases parse_eq_ok parsed with ⟨-, same⟩ | ⟨_, _, _, -, -, same⟩
  · obtain rfl := congrArg AggregateArgument.value same
    exact means
  · exact absurd (congrArg AggregateArgument.condition same) (by simp)

/-- What the arguments of a call mean, one by one. Only the first may carry a condition, and only that
of an aggregate. -/
inductive ArgumentsMean (mode : FunctionMode) : Option Condition → List (List Token) →
    List Meaning → Prop
  | nil : ArgumentsMean mode none [] []
  | cons {condition : Option Condition} {first : List Token} {meaning : Meaning}
      {more : List (List Token)} {meanings : List Meaning} :
      MeansWhere condition first meaning → (mode ≠ .aggregate → condition = none) →
      List.Forall₂ Means more meanings →
      ArgumentsMean mode condition (first :: more) (meaning :: meanings)

namespace ArgumentsMean

variable {mode : FunctionMode} {condition : Option Condition} {args : List (List Token)}
  {meanings : List Meaning}

theorem of_forall₂ (each : List.Forall₂ (MeansWhere none) args meanings) :
    ArgumentsMean mode none args meanings := by
  cases each with
  | nil => exact .nil
  | cons first more => exact .cons first (fun _ => rfl) (more.imp fun _ _ => MeansWhere.means)

theorem length_eq (mean : ArgumentsMean mode condition args meanings) :
    args.length = meanings.length := by
  cases mean with
  | nil => rfl
  | cons _ _ more => exact congrArg (· + 1) more.length_eq

theorem one (mean : ArgumentsMean mode condition args meanings) (count : args.length = 1) :
    ∃ ts meaning, args = [ts] ∧ meanings = [meaning] ∧ MeansWhere condition ts meaning := by
  cases mean with
  | nil => exact absurd count (by simp)
  | cons first _ more =>
    cases more with
    | nil => exact ⟨_, _, rfl, rfl, first⟩
    | cons => exact absurd count (by simp)

theorem two (mean : ArgumentsMean mode condition args meanings) (count : args.length = 2) :
    ∃ ts ts' meaning meaning', args = [ts, ts'] ∧ meanings = [meaning, meaning'] ∧
      MeansWhere condition ts meaning ∧ Means ts' meaning' := by
  cases mean with
  | nil => exact absurd count (by simp)
  | cons first _ more =>
    cases more with
    | nil => exact absurd count (by simp)
    | cons second more =>
      cases more with
      | nil => exact ⟨_, _, _, _, rfl, rfl, first, second⟩
      | cons => exact absurd count (by simp)

/-- The arguments of a function that is no aggregate mean what they mean by themselves. -/
theorem each (mean : ArgumentsMean mode condition args meanings) (scalar : mode ≠ .aggregate) :
    List.Forall₂ Means args meanings := by
  cases mean with
  | nil => exact .nil
  | cons first free more =>
    obtain rfl := free scalar
    exact .cons first.means more

theorem scalars (mean : ArgumentsMean mode condition args meanings) (scalar : mode ≠ .aggregate)
    (count : args.length = 2) :
    ∃ ts₁ ts₂ meaning₁ meaning₂, args = [ts₁, ts₂] ∧ meanings = [meaning₁, meaning₂] ∧
      Means ts₁ meaning₁ ∧ Means ts₂ meaning₂ := by
  obtain ⟨ts₁, ts₂, rfl⟩ := List.length_eq_two.mp count
  have each := mean.each scalar
  simp only [List.forall₂_cons_left_iff, List.forall₂_nil_left_iff] at each
  obtain ⟨meaning₁, _, first, ⟨meaning₂, _, second, rfl, rfl⟩, rfl⟩ := each
  exact ⟨_, _, _, _, rfl, rfl, first, second⟩

theorem three (mean : ArgumentsMean mode condition args meanings) (scalar : mode ≠ .aggregate)
    (count : args.length = 3) :
    ∃ ts₁ ts₂ ts₃ meaning₁ meaning₂ meaning₃,
      args = [ts₁, ts₂, ts₃] ∧ meanings = [meaning₁, meaning₂, meaning₃] ∧
      Means ts₁ meaning₁ ∧ Means ts₂ meaning₂ ∧ Means ts₃ meaning₃ := by
  obtain ⟨ts₁, ts₂, ts₃, rfl⟩ := List.length_eq_three.mp count
  have each := mean.each scalar
  simp only [List.forall₂_cons_left_iff, List.forall₂_nil_left_iff] at each
  obtain ⟨meaning₁, _, first, remaining, rfl⟩ := each
  obtain ⟨meaning₂, _, second, ⟨meaning₃, _, third, rfl, rfl⟩, rfl⟩ := remaining
  exact ⟨_, _, _, _, _, _, rfl, rfl, first, second, third⟩

end ArgumentsMean

namespace TreeLemmas

variable {condition : Option Condition} {args : List (List Token)} {meanings : List Meaning}

theorem eq_of_accepts {n count : Nat} (fits : Arity.accepts ⟨n, some n⟩ count = true) : count = n := by
  simp only [Arity.accepts, Option.all_some, Bool.and_eq_true, decide_eq_true_eq] at fits
  omega

theorem toOption_run {spec : FunctionSpec} (known : spec ∈ Catalog.standardFunctions)
    (mean : ArgumentsMean spec.mode condition args meanings)
    (fits : spec.arity.accepts args.length = true) (ctx : Context) :
    (spec.builtin.run evaluate args ctx).toOption = spec.builtin.meaning condition meanings ctx := by
  simp only [Catalog.standardFunctions, List.mem_cons, List.not_mem_nil, or_false] at known
  rcases known with rfl | rfl | rfl | rfl | rfl | rfl | rfl | rfl | rfl | rfl
  · obtain ⟨ts, meaning, rfl, rfl, first⟩ := mean.one (eq_of_accepts fits)
    exact toOption_reduceNumbers first _ _ _
  · obtain ⟨ts, meaning, rfl, rfl, first⟩ := mean.one (eq_of_accepts fits)
    exact toOption_reduceNumbers first _ _ _
  · cases mean with
    | nil => rfl
    | cons first _ more =>
      cases more with
      | nil => exact toOption_runCount first []
      | cons => exact absurd fits (by simp [Arity.accepts])
  · obtain ⟨ts, meaning, rfl, rfl, first⟩ := mean.one (eq_of_accepts fits)
    exact toOption_reduceNumbers first _ _ _
  · obtain ⟨ts, meaning, rfl, rfl, first⟩ := mean.one (eq_of_accepts fits)
    exact toOption_reduceNumbers first _ _ _
  · obtain ⟨ts, size, meaning, sizeMeaning, rfl, rfl, first, second⟩ := mean.two (eq_of_accepts fits)
    exact toOption_runMovingAverage first second
  · obtain ⟨choice, yes, no, _, _, _, rfl, rfl, first, second, third⟩ :=
      mean.three (by simp) (eq_of_accepts fits)
    exact toOption_runChoose first second third
  · obtain ⟨x, y, _, _, rfl, rfl, first, second⟩ := mean.scalars (by simp) (eq_of_accepts fits)
    exact toOption_runQuotient first second _ _
  · obtain ⟨x, y, _, _, rfl, rfl, first, second⟩ := mean.scalars (by simp) (eq_of_accepts fits)
    exact toOption_runQuotient first second _ _
  · obtain ⟨x, y, _, _, rfl, rfl, first, second⟩ := mean.scalars (by simp) (eq_of_accepts fits)
    exact toOption_runQuotient first second _ _

theorem meaning_of_unfit {spec : FunctionSpec} (known : spec ∈ Catalog.standardFunctions)
    (unfit : spec.arity.accepts meanings.length = false) (ctx : Context) :
    spec.builtin.meaning condition meanings ctx = none := by
  simp only [Catalog.standardFunctions, List.mem_cons, List.not_mem_nil, or_false] at known
  rcases known with rfl | rfl | rfl | rfl | rfl | rfl | rfl | rfl | rfl | rfl
  all_goals
    rcases meanings with _ | ⟨_, _ | ⟨_, _ | ⟨_, _ | _⟩⟩⟩
    all_goals first | rfl | exact absurd unfit (by simp [Arity.accepts])

end TreeLemmas

/-- A call of arguments that mean something means what its function makes of that. -/
theorem FunctionName.toOption_evaluateCall {condition : Option Condition} {args : List (List Token)}
    {meanings : List Meaning} (function : FunctionName)
    (mean : ArgumentsMean function.spec.mode condition args meanings) (ctx : Context) :
    (evaluateCall evaluate { name := function.token.callName, args, rest := [] } ctx).toOption =
      function.spec.builtin.meaning condition meanings ctx := by
  unfold evaluateCall
  simp only [function.found]
  rw [toOption_bind]
  unfold FunctionSpec.checkArity
  cases fits : function.spec.arity.accepts args.length with
  | true =>
    rw [← toOption_run (mem_of_find? function.found) mean fits ctx]
    rfl
  | false =>
    rw [meaning_of_unfit (mem_of_find? function.found) (mean.length_eq ▸ fits) ctx]
    rfl

end RecordFormula
