import RecordFormula.Proofs.Groups

/-!
# Quotients

A ratio function divides the number of its first argument by that of its second. So does an expression with
the two arguments in parentheses and `/` between them, but they are no arguments there: they are groups of
one row, which is worked out level by level. The two give the same double wherever both give one. Only a
divisor that is 0 they take differently.

Results:
1. `evaluate_groups`: a row that starts with two groups is worked out with the values that they have.
2. `reduceFlat_of_level`: operators of one level are carried out from the left.
3. `evaluate_expression` and `numbers_of_expression`: the value of an expression with `/`, and what it needs.
4. `quotient_agrees`: a ratio function agrees with its expression but where the divisor is 0.
-/

namespace RecordFormula

open CallsLemmas CallSpansLemmas CheckedLemmas FiltersLemmas GroupsLemmas NestingLemmas PrecedenceLemmas
  ResolveLemmas TreeLemmas

/-! ## Groups with an operator between them -/

/-- Tokens without parentheses and calls, that join a row as they are. -/
structure JoinRow (ctx : Context) (ts : List Token) (items : List Term) : Prop where
  resolved : resolve evaluate ctx ts = .ok items
  plain : ∀ t ∈ items, Plain t

section Groups

variable {ctx : Context} {a b back : List Token} {items : List Term} {op : Operator} {v w z : Value}

/-- Two groups with an operator between them, and what stands behind them, are one row. -/
theorem evaluate_groups (left : IsArgument a) (right : IsArgument b) (joins : Plain (.operator op))
    (behind : JoinRow ctx back items) :
    evaluate (grouped a ++ .operator op :: (grouped b ++ back)) ctx = (do
      let front ← resolve evaluate ctx a
      let next ← resolve evaluate ctx b
      let v ← reduce front
      let w ← reduce next
      reduceFlat (.value v :: .operator op :: .value w :: items)) := by
  rw [evaluate_eq, evaluateLevel, resolve_group left.closed, resolve_of_plain startsCall_operator,
    resolve_group right.closed, behind.resolved]
  cases leftFound : resolve evaluate ctx a with
  | error reason => rfl
  | ok front =>
  cases rightFound : resolve evaluate ctx b with
  | error reason => rfl
  | ok next =>
    calc reduceFrom [] [] (.operator .leftParen :: (front ++ .operator .rightParen ::
          .operator op :: .operator .leftParen :: (next ++ .operator .rightParen :: items)))
      _ = reduce front >>= fun v => reduceFrom [] [.value v]
            (.operator op :: .operator .leftParen :: (next ++ .operator .rightParen :: items)) :=
        reduceFrom_group left.closed left.full leftFound _
      _ = reduce front >>= fun v => reduce next >>= fun w =>
            reduceFlat (.value v :: .operator op :: .value w :: items) := by
        refine congrArg _ (funext fun v => ?_)
        rw [reduceFrom_cons joins, reduceFrom_group right.closed right.full rightFound]
        refine congrArg _ (funext fun w => ?_)
        rw [reduceFrom_plain behind.plain]
        rfl

theorem evaluate_groups_of_values (left : IsArgument a) (right : IsArgument b)
    (joins : Plain (.operator op)) (behind : JoinRow ctx back items) (leftValue : evaluate a ctx = .ok v)
    (rightValue : evaluate b ctx = .ok w) :
    evaluate (grouped a ++ .operator op :: (grouped b ++ back)) ctx =
      reduceFlat (.value v :: .operator op :: .value w :: items) := by
  rw [evaluate_eq] at leftValue rightValue
  obtain ⟨front, leftFound, leftReduced⟩ := exists_of_bind_eq_ok leftValue
  obtain ⟨next, rightFound, rightReduced⟩ := exists_of_bind_eq_ok rightValue
  rw [evaluate_groups left right joins behind, leftFound, rightFound]
  simp only [bind, Except.bind, leftReduced, rightReduced]

/-- A row with a value has one for each of its groups. -/
theorem values_of_evaluate_groups (left : IsArgument a) (right : IsArgument b)
    (joins : Plain (.operator op)) (behind : JoinRow ctx back items)
    (found : evaluate (grouped a ++ .operator op :: (grouped b ++ back)) ctx = .ok z) :
    ∃ v w, evaluate a ctx = .ok v ∧ evaluate b ctx = .ok w ∧
      reduceFlat (.value v :: .operator op :: .value w :: items) = .ok z := by
  rw [evaluate_groups left right joins behind] at found
  obtain ⟨front, leftFound, found⟩ := exists_of_bind_eq_ok found
  obtain ⟨next, rightFound, found⟩ := exists_of_bind_eq_ok found
  obtain ⟨v, leftReduced, found⟩ := exists_of_bind_eq_ok found
  obtain ⟨w, rightReduced, found⟩ := exists_of_bind_eq_ok found
  refine ⟨v, w, ?_, ?_, found⟩
  · rw [evaluate_eq, evaluateLevel, leftFound]
    exact leftReduced
  · rw [evaluate_eq, evaluateLevel, rightFound]
    exact rightReduced

end Groups

/-! ## Operators of one level -/

/-- The value of an operator and its right side behind a left side. -/
def carryOut (left : Value) (step : Step) : Except EvalError Value := step.1.apply left step.2

namespace QuotientsLemmas

variable {level : Nat} {steps : List Step}

theorem collapse_of_same (same : ∀ step ∈ steps, step.1.level = level) (left : Value) :
    collapse level left steps = (steps.foldlM carryOut left).map (·, []) := by
  induction steps generalizing left with
  | nil => rfl
  | cons step steps ih =>
    rw [collapse_of_level (same step List.mem_cons_self), List.foldlM_cons, carryOut]
    cases step.1.apply left step.2 with
    | error reason => rfl
    | ok value => exact ih (fun other mem => same other (List.mem_cons_of_mem _ mem)) value

theorem collapse_of_others (others : ∀ step ∈ steps, step.1.level ≠ level) (left : Value) :
    collapse level left steps = .ok (left, steps) := by
  induction steps generalizing left with
  | nil => rfl
  | cons step steps ih =>
    rw [collapse_of_other (others step List.mem_cons_self),
      ih fun other mem => others other (List.mem_cons_of_mem _ mem)]
    rfl

end QuotientsLemmas

open QuotientsLemmas

/-- A row whose operators are all of one level is worked out from the left. -/
theorem reduceFlat_of_level {row : Row} {level : Nat} {left : Value} {steps : List Step}
    (read : row.read = .ok (left, steps)) (same : ∀ step ∈ steps, step.1.level = level)
    (reached : level ≤ 2) :
    reduceFlat row.terms = steps.foldlM carryOut left := by
  have others (other : Nat) (apart : other ≠ level) : ∀ step ∈ steps, step.1.level ≠ other :=
    fun step mem here => apart (here.symm.trans (same step mem))
  rw [reduceFlat, List.isEmpty_eq_false_iff.mpr row.terms_ne_nil, readSteps_terms, read]
  simp only [Bool.false_eq_true, if_false, bind, Except.bind]
  obtain rfl | rfl | rfl : level = 0 ∨ level = 1 ∨ level = 2 := by omega
  · rw [collapse_of_others (others 2 (by simp))]
    simp only [collapse_of_others (others 1 (by simp)), collapse_of_same same]
    cases steps.foldlM carryOut left <;> rfl
  · rw [collapse_of_others (others 2 (by simp))]
    simp only [collapse_of_same same]
    cases steps.foldlM carryOut left <;> rfl
  · rw [collapse_of_same same]
    cases steps.foldlM carryOut left <;> rfl

namespace QuotientsLemmas

variable {v w z : Value} {x y : Float}

theorem reduceFlat_minus :
    reduceFlat [.value v, .operator .minus, .value w] = BinaryOp.subtract.apply v w := by
  let row : Row := { first := ⟨[], v⟩, steps := [(.subtract, ⟨[], w⟩)] }
  have read : row.read = .ok (v, [(.subtract, w)]) := rfl
  refine (reduceFlat_of_level read (by simp [BinaryOp.level]) (Nat.le_succ 1)).trans ?_
  simp [carryOut]

theorem reduceFlat_slash :
    reduceFlat [.value v, .operator .slash, .value w] = BinaryOp.divide.apply v w := by
  let row : Row := { first := ⟨[], v⟩, steps := [(.divide, ⟨[], w⟩)] }
  have read : row.read = .ok (v, [(.divide, w)]) := rfl
  refine (reduceFlat_of_level read (by simp [BinaryOp.level]) (Nat.le_refl 2)).trans ?_
  simp [carryOut]

theorem reduceFlat_slash_star :
    reduceFlat [.value v, .operator .slash, .value w, .operator .star, .value z] =
      BinaryOp.divide.apply v w >>= fun quotient => BinaryOp.multiply.apply quotient z := by
  let row : Row := { first := ⟨[], v⟩, steps := [(.divide, ⟨[], w⟩), (.multiply, ⟨[], z⟩)] }
  have read : row.read = .ok (v, [(.divide, w), (.multiply, z)]) := rfl
  refine (reduceFlat_of_level read (by simp [BinaryOp.level]) (Nat.le_refl 2)).trans ?_
  simp [carryOut]

theorem apply_subtract (left : v.toNumber = .ok x) (right : w.toNumber = .ok y) :
    BinaryOp.subtract.apply v w = .ok (.number (x - y)) := by
  simp only [BinaryOp.apply, left, right]
  rfl

theorem apply_divide (left : v.toNumber = .ok x) (right : w.toNumber = .ok y) :
    BinaryOp.divide.apply v w = if y == 0 then .error .divisionByZero else .ok (.number (x / y)) := by
  simp only [BinaryOp.apply, left, right, bind, Except.bind]
  split <;> rfl

theorem numbers_of_apply {op : BinaryOp} (arithmetic : op = .subtract ∨ op = .divide)
    (found : op.apply v w = .ok z) : ∃ x y, v.toNumber = .ok x ∧ w.toNumber = .ok y := by
  rcases arithmetic with rfl | rfl
  · obtain ⟨x, left, found⟩ := exists_of_bind_eq_ok found
    obtain ⟨y, right, -⟩ := exists_of_bind_eq_ok found
    exact ⟨x, y, left, right⟩
  · obtain ⟨y, right, found⟩ := exists_of_bind_eq_ok found
    cases left : v.toNumber with
    | ok x => exact ⟨x, y, rfl, right⟩
    | error reason =>
      rw [left] at found
      split at found <;> exact absurd found (by simp [bind, Except.bind, throw, throwThe, MonadExceptOf.throw])

end QuotientsLemmas

/-! ## The ratio functions -/

/-- The functions that divide their first argument by their second. -/
inductive QuotientFunction where
  | ratio | percentage | growthRate

namespace QuotientFunction

def builtin : QuotientFunction → Builtin
  | .ratio => .ratio
  | .percentage => .percentage
  | .growthRate => .growthRate

/-- The function as an expression: `(a) / (b)`, `(a) / (b) * 100` and `((a) - (b)) / (b) * 100`. -/
def expression : QuotientFunction → List Token → List Token → List Token
  | .ratio, a, b => grouped a ++ .operator .slash :: grouped b
  | .percentage, a, b => grouped a ++ .operator .slash :: (grouped b ++ [.operator .star, .number 100])
  | .growthRate, a, b => grouped (grouped a ++ .operator .minus :: grouped b) ++
      .operator .slash :: (grouped b ++ [.operator .star, .number 100])

/-- The function of two numbers, in the arithmetic of doubles. -/
def value : QuotientFunction → Float → Float → Float
  | .ratio, x, y => x / y
  | .percentage, x, y => x / y * 100
  | .growthRate, x, y => (x - y) / y * 100

end QuotientFunction

namespace QuotientsLemmas

variable {ctx : Context} {a b ts : List Token} {x y : Float} {z : Value}

theorem evaluateNumber_of_apply {op : BinaryOp} {v w : Value} (arithmetic : op = .subtract ∨ op = .divide)
    (leftValue : evaluate a ctx = .ok v) (rightValue : evaluate b ctx = .ok w)
    (applied : op.apply v w = .ok z) :
    ∃ x y, evaluateNumber a ctx = .ok x ∧ evaluateNumber b ctx = .ok y := by
  obtain ⟨x, y, leftNumber, rightNumber⟩ := numbers_of_apply arithmetic applied
  exact ⟨x, y, evaluateNumber_eq_ok_iff.mpr ⟨v, leftValue, leftNumber⟩,
    evaluateNumber_eq_ok_iff.mpr ⟨w, rightValue, rightNumber⟩⟩

theorem joinRow_nil : JoinRow ctx [] [] := ⟨by rw [resolve], by simp⟩

theorem joinRow_percent :
    JoinRow ctx [.operator .star, .number 100] [.operator .star, .value (.number 100)] where
  resolved := by
    rw [resolve_of_plain startsCall_operator, resolve_single rfl]
    rfl
  plain := by simp [Plain]

theorem plain_minus : Plain (.operator .minus) := by simp [Plain]

theorem plain_slash : Plain (.operator .slash) := by simp [Plain]

theorem isArgument_groups {op : Operator} (left : IsArgument a) (right : IsArgument b)
    (noParen : (Token.operator op).isParen = false) (noComma : (Token.operator op).isComma = false) :
    IsArgument (grouped a ++ .operator op :: grouped b) := by
  refine ⟨isClosed_behind (isClosed_group left.closed) ?_, by simp⟩
  exact (isClosed_cons noParen).mpr ⟨fun _ => noComma, isClosed_group right.closed⟩

theorem evaluateNumber_difference (left : IsArgument a) (right : IsArgument b)
    (above : evaluateNumber a ctx = .ok x) (below : evaluateNumber b ctx = .ok y) :
    evaluateNumber (grouped a ++ .operator .minus :: grouped b) ctx = .ok (x - y) := by
  obtain ⟨v, leftValue, leftNumber⟩ := evaluateNumber_eq_ok_iff.mp above
  obtain ⟨w, rightValue, rightNumber⟩ := evaluateNumber_eq_ok_iff.mp below
  refine evaluateNumber_number ?_
  rw [← List.append_nil (grouped b),
    evaluate_groups_of_values left right plain_minus joinRow_nil leftValue rightValue, reduceFlat_minus,
    apply_subtract leftNumber rightNumber]

end QuotientsLemmas

namespace QuotientFunction

variable {ctx : Context} {a b : List Token} {x y : Float} {z : Value}

/-- Of two numbers an expression with `/` makes what it stands for, and fails where the second is 0. -/
theorem evaluate_expression (kind : QuotientFunction) (left : IsArgument a) (right : IsArgument b)
    (above : evaluateNumber a ctx = .ok x) (below : evaluateNumber b ctx = .ok y) :
    evaluate (kind.expression a b) ctx =
      if y == 0 then .error .divisionByZero else .ok (.number (kind.value x y)) := by
  have percentage {a : List Token} {x : Float} (left : IsArgument a) (above : evaluateNumber a ctx = .ok x) :
      evaluate (percentage.expression a b) ctx =
        if y == 0 then .error .divisionByZero else .ok (.number (x / y * 100)) := by
    obtain ⟨v, leftValue, leftNumber⟩ := evaluateNumber_eq_ok_iff.mp above
    obtain ⟨w, rightValue, rightNumber⟩ := evaluateNumber_eq_ok_iff.mp below
    rw [expression, evaluate_groups_of_values left right plain_slash joinRow_percent leftValue rightValue,
      reduceFlat_slash_star, apply_divide leftNumber rightNumber]
    split <;> rfl
  cases kind with
  | ratio =>
    obtain ⟨v, leftValue, leftNumber⟩ := evaluateNumber_eq_ok_iff.mp above
    obtain ⟨w, rightValue, rightNumber⟩ := evaluateNumber_eq_ok_iff.mp below
    rw [expression, ← List.append_nil (grouped b),
      evaluate_groups_of_values left right plain_slash joinRow_nil leftValue rightValue, reduceFlat_slash,
      apply_divide leftNumber rightNumber]
    rfl
  | percentage => exact percentage left above
  | growthRate =>
    exact percentage (isArgument_groups left right rfl rfl) (evaluateNumber_difference left right above below)

/-- An expression with `/` has a value only if both sides are numbers. -/
theorem numbers_of_expression (kind : QuotientFunction) (left : IsArgument a) (right : IsArgument b)
    (found : evaluate (kind.expression a b) ctx = .ok z) :
    ∃ x y, evaluateNumber a ctx = .ok x ∧ evaluateNumber b ctx = .ok y := by
  have percentage {a : List Token} (left : IsArgument a)
      (found : evaluate (percentage.expression a b) ctx = .ok z) :
      ∃ x y, evaluateNumber a ctx = .ok x ∧ evaluateNumber b ctx = .ok y := by
    obtain ⟨v, w, leftValue, rightValue, reduced⟩ :=
      values_of_evaluate_groups left right plain_slash joinRow_percent found
    rw [reduceFlat_slash_star] at reduced
    obtain ⟨quotient, divided, -⟩ := exists_of_bind_eq_ok reduced
    exact evaluateNumber_of_apply (.inr rfl) leftValue rightValue divided
  cases kind with
  | ratio =>
    rw [expression, ← List.append_nil (grouped b)] at found
    obtain ⟨v, w, leftValue, rightValue, reduced⟩ :=
      values_of_evaluate_groups left right plain_slash joinRow_nil found
    rw [reduceFlat_slash] at reduced
    exact evaluateNumber_of_apply (.inr rfl) leftValue rightValue reduced
  | percentage => exact percentage left found
  | growthRate =>
    obtain ⟨x, y, above, -⟩ := percentage (isArgument_groups left right rfl rfl) found
    obtain ⟨difference, evaluated, -⟩ := evaluateNumber_eq_ok_iff.mp above
    rw [← List.append_nil (grouped b)] at evaluated
    obtain ⟨v, w, leftValue, rightValue, reduced⟩ :=
      values_of_evaluate_groups left right plain_minus joinRow_nil evaluated
    rw [reduceFlat_minus] at reduced
    exact evaluateNumber_of_apply (.inl rfl) leftValue rightValue reduced

/-- A ratio function divides the numbers of its arguments, and gives 0 where the second is 0. -/
theorem evaluate_call (kind : QuotientFunction) {function : FunctionName}
    (named : function.spec.builtin = kind.builtin) (left : IsArgument a) (right : IsArgument b) :
    evaluate (function.callTokens [a, b]) ctx = (do
      let x ← evaluateNumber a ctx
      let y ← evaluateNumber b ctx
      pure (.number (if y == 0 then 0 else kind.value x y))) := by
  have fits : function.spec.arity.accepts 2 = true := by
    rw [function.arity_mode_eq.1, named]
    cases kind <;> rfl
  rw [evaluate_callTokens (by simp [left, right]) fits, named]
  cases kind <;> rfl

end QuotientFunction

/-- How a call of a ratio function answers in comparison with an expression. That something is a number is
meant as in arithmetic: null is 0, a truth value is 1 or 0, and a text is what it reads as. -/
structure AgreesButAtZero (call expression : List Token) (value : Float → Float → Float) (a b : List Token)
    (ctx : Context) : Prop where
  /-- The call gives 0 where the expression divides by 0. -/
  zero {x y : Float} : evaluateNumber a ctx = .ok x → evaluateNumber b ctx = .ok y → (y == 0) = true →
    evaluate call ctx = .ok (.number 0) ∧ evaluate expression ctx = .error .divisionByZero
  other {x y : Float} : evaluateNumber a ctx = .ok x → evaluateNumber b ctx = .ok y → (y == 0) = false →
    evaluate call ctx = .ok (.number (value x y)) ∧ evaluate expression ctx = .ok (.number (value x y))
  /-- Both need both numbers. -/
  neither : (∀ x, evaluateNumber a ctx ≠ .ok x) ∨ (∀ y, evaluateNumber b ctx ≠ .ok y) →
    (∃ reason, evaluate call ctx = .error reason) ∧ ∃ reason, evaluate expression ctx = .error reason

/-- A ratio function of two arguments, by any of its names, gives the very double that its expression gives,
and 0 where the expression divides by 0. It fails where an argument has no value that is a number, and so
does the expression. The arguments are lists with balanced parentheses that have their commas inside these. -/
theorem quotient_agrees (kind : QuotientFunction) {function : FunctionName}
    (named : function.spec.builtin = kind.builtin) {a b : List Token}
    (left : a ≠ [] ∧ Balanced a ∧ AllInside Token.isComma a)
    (right : b ≠ [] ∧ Balanced b ∧ AllInside Token.isComma b) (ctx : Context) :
    AgreesButAtZero (function.callTokens [a, b]) (kind.expression a b) kind.value a b ctx := by
  replace left := isArgument_iff.mpr left
  replace right := isArgument_iff.mpr right
  have call := @QuotientFunction.evaluate_call ctx a b kind function named left right
  have worked {x y : Float} (above : evaluateNumber a ctx = .ok x) (below : evaluateNumber b ctx = .ok y) :
      evaluate (function.callTokens [a, b]) ctx = .ok (.number (if y == 0 then 0 else kind.value x y)) := by
    rw [call, above, below]
    rfl
  refine ⟨fun above below zero => ?_, fun above below other => ?_, fun lacks => ?_⟩
  · rw [worked above below, kind.evaluate_expression left right above below, zero]
    exact ⟨rfl, rfl⟩
  · rw [worked above below, kind.evaluate_expression left right above below, other]
    exact ⟨rfl, rfl⟩
  · have failing (ts : List Token) (needs : ∀ value, evaluate ts ctx = .ok value →
        ∃ x y, evaluateNumber a ctx = .ok x ∧ evaluateNumber b ctx = .ok y) :
        ∃ reason, evaluate ts ctx = .error reason := by
      cases found : evaluate ts ctx with
      | error reason => exact ⟨reason, rfl⟩
      | ok value =>
        obtain ⟨x, y, above, below⟩ := needs value found
        exact lacks.elim (fun none => absurd above (none x)) fun none => absurd below (none y)
    refine ⟨failing _ fun value found => ?_, failing _ fun value found => ?_⟩
    · rw [call] at found
      obtain ⟨x, above, found⟩ := exists_of_bind_eq_ok found
      obtain ⟨y, below, -⟩ := exists_of_bind_eq_ok found
      exact ⟨x, y, above, below⟩
    · exact kind.numbers_of_expression left right found

/-- The growth rate by a field's name. -/
def growthRateFunction : FunctionName where
  token := .field "growth_rate"
  spec := { name := "GROWTH_RATE", arity := ⟨2, some 2⟩, mode := .scalar, builtin := .growthRate
            description := "(current - previous) / previous * 100, 0 when previous is 0"
            usage := "GROWTH_RATE(current, previous)" }
  isName := rfl
  found := by with_unfolding_all rfl

/-- A balance and the one before it. -/
def twoBalances (current previous : Float) : Context :=
  { data := .single (.ofList [("balance", .number current), ("prior_balance", .number previous)]) }

/-- A balance grows by a fifth, and from nothing by nothing. -/
theorem growthRate_of_balances :
    evaluate (growthRateFunction.callTokens [[.field "balance"], [.field "prior_balance"]])
        (twoBalances 120 100) = .ok (.number 20) ∧
      evaluate (growthRateFunction.callTokens [[.field "balance"], [.field "prior_balance"]])
        (twoBalances 120 0) = .ok (.number 0) ∧
      evaluate (QuotientFunction.growthRate.expression [.field "balance"] [.field "prior_balance"])
        (twoBalances 120 0) = .error .divisionByZero := by
  have isArgument (name : String) : IsArgument [.field name] := ⟨rfl, by simp⟩
  have agrees := @quotient_agrees .growthRate growthRateFunction rfl _ _
    (isArgument_iff.mp (isArgument "balance")) (isArgument_iff.mp (isArgument "prior_balance"))
  have current (previous : Float) : evaluateNumber [.field "balance"] (twoBalances 120 previous) = .ok 120 :=
    evaluateNumber_number (evaluate_field (by with_unfolding_all rfl) _)
  have previous (x : Float) : evaluateNumber [.field "prior_balance"] (twoBalances 120 x) = .ok x :=
    evaluateNumber_number (evaluate_field (by with_unfolding_all rfl) _)
  have fifth : QuotientFunction.growthRate.value 120 100 = 20 := by decide +kernel
  refine ⟨?_, (agrees _).zero (current 0) (previous 0) (by decide)⟩
  rw [← fifth]
  exact ((agrees _).other (current 100) (previous 100) (by decide)).1

end RecordFormula
