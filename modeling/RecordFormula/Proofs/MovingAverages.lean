import RecordFormula.Proofs.CallSpans
import RecordFormula.Proofs.RecordValues
import RecordFormula.Proofs.WholeNumbers

/-!
# Moving averages

A moving average is the mean of the last numbers. Its window counts numbers, not records: a record that does
not pass the condition, or whose value is no number, makes no difference. So it is the mean over any list of
last records that has as many numbers as the window holds.

Results:
1. `window?_eq_some_iff`: a window is a positive whole number.
2. `meanOfLast_append`: the mean of the last numbers is that of all numbers behind a cut.
3. `movingAverage_averages_tail`: what a moving average is over a list of records.
-/

namespace RecordFormula

open TreeLemmas RecordValuesLemmas

namespace Builtin

variable {size : Float} {window : ℕ} {xs ys : List Float}

/-- A window is a positive whole number. -/
theorem window?_eq_some_iff : window? size = some window ↔ 1 ≤ window ∧ Number.IsWhole size window := by
  have one : Number.IsWhole 1 1 := Number.isWhole_ofNat (n := 1) (by decide)
  unfold window?
  rw [Option.ite_none_right_eq_some, Bool.and_eq_true, decide_eq_true_eq, Option.some.injEq]
  constructor
  · rintro ⟨⟨integral, least⟩, rfl⟩
    obtain ⟨k, whole⟩ := Number.isIntegral_iff.mp integral
    have least : 1 ≤ k := (Number.le_iff_of_isWhole one whole).mp least
    have same : k = (Number.wholePart size : ℕ) := by
      rw [Number.wholePart_of_isWhole whole]
      omega
    exact ⟨by omega, same ▸ whole⟩
  · rintro ⟨least, whole⟩
    have integral := Number.isIntegral_iff.mpr ⟨_, whole⟩
    exact ⟨⟨integral, (Number.le_iff_of_isWhole one whole).mpr (by omega)⟩, Number.wholePart_of_isWhole whole⟩

/-- The mean of the last numbers is the mean of those behind a cut. -/
theorem meanOfLast_append (length : ys.length = window) : meanOfLast window (xs ++ ys) = Number.mean ys := by
  have enough : ¬ (xs ++ ys).length < window := by
    rw [List.length_append]
    omega
  have front : (xs ++ ys).length - window = xs.length := by
    rw [List.length_append, length, Nat.add_sub_cancel]
  rw [meanOfLast, if_neg enough, front, List.drop_left]

theorem exists_start (enough : window ≤ xs.length) :
    ∃ start, start + window = xs.length ∧ meanOfLast window xs = Number.mean (xs.drop start) :=
  ⟨xs.length - window, Nat.sub_add_cancel enough, if_neg (not_lt.mpr enough)⟩

end Builtin

/-- How many records of a list have a number for an argument. -/
def AggregateArgument.countNumbers (arg : AggregateArgument) (ctx : Context) (records : List Record) : ℕ :=
  records.countP fun record => (arg.numberOf? ctx record).isSome

theorem AggregateArgument.length_numbers (arg : AggregateArgument) (ctx : Context) (records : List Record) :
    (records.filterMap (arg.numberOf? ctx)).length = arg.countNumbers ctx records :=
  List.length_filterMap_eq_countP

section Call

variable {moving average : FunctionName} {first window : List Token} {arg : AggregateArgument} {ctx : Context}
  {size : Float} {k : ℕ} {records : List Record}

/-- A moving average looks at its window before it looks at the values. -/
theorem evaluate_movingAverage (named : moving.spec.builtin = .movingAverage) (isFirst : IsArgument first)
    (isWindow : IsArgument window) (parsed : AggregateArgument.parse first = .ok arg)
    (worked : evaluateNumber window ctx = .ok size) :
    evaluate (moving.callTokens [first, window]) ctx =
      match Builtin.window? size with
      | none => .error (.invalidArgument "MOVING_AVG" (.window size))
      | some count => (do
        let xs ← arg.numbers evaluate "MOVING_AVG" ctx
        pure (.number (Builtin.meanOfLast count xs))) := by
  have fits : moving.spec.arity.accepts 2 = true := by
    rw [moving.arity_mode_eq.1, named]
    rfl
  rw [evaluate_callTokens (by simp [isFirst, isWindow]) fits, named]
  show (AggregateArgument.parse first >>= fun arg => evaluateNumber window ctx >>= _) = _
  rw [parsed, worked]
  rfl

end Call

/-- How a moving average over records answers in comparison with the mean, for a window of so many numbers. -/
structure AveragesTail (moving : Except EvalError Value) (average : List Record → Except EvalError Value)
    (arg : AggregateArgument) (ctx : Context) (records : List Record) (window : ℕ) : Prop where
  few : arg.countNumbers ctx records < window → moving = .ok (.number 0)
  /-- Wherever the records are cut, if as many numbers are behind the cut, what is in front does not matter. -/
  tail : ∀ pre post, records = pre ++ post → arg.countNumbers ctx post = window → moving = average post
  /-- The slice of the numbers does not start in front of the first. -/
  slice : window ≤ arg.countNumbers ctx records → ∃ start, start + window = arg.countNumbers ctx records ∧
    moving = .ok (.number (Number.mean ((records.filterMap (arg.numberOf? ctx)).drop start)))

/-- A moving average with a window that is a positive whole number is 0 over records with fewer numbers, and
otherwise the mean over any records at the end that have so many. With any other window it fails, whatever the
records are. The window may be any argument that is worth a number, such as a number itself; the first
argument is a value, maybe with a condition. -/
theorem movingAverage_averages_tail {moving average : FunctionName}
    (movingNamed : moving.spec.builtin = .movingAverage) (averageNamed : average.spec.builtin = .average)
    {first window : List Token} (isFirst : first ≠ [] ∧ Balanced first ∧ AllInside Token.isComma first)
    (isWindow : window ≠ [] ∧ Balanced window ∧ AllInside Token.isComma window) {arg : AggregateArgument}
    (parsed : AggregateArgument.parse first = .ok arg) {ctx : Context} {records : List Record} {size : Float}
    (worked : evaluateNumber window { ctx with data := .many records } = .ok size) :
    (∀ k : ℕ, 1 ≤ k → Number.IsWhole size k → arg.isWildcard = false →
      (∀ record ∈ records, arg.WorksOut ctx record) →
        AveragesTail (evaluate (moving.callTokens [first, window]) { ctx with data := .many records })
          (average.over first ctx) arg ctx records k) ∧
    ((∀ k : ℕ, 1 ≤ k → ¬ Number.IsWhole size k) →
      evaluate (moving.callTokens [first, window]) { ctx with data := .many records } =
        .error (.invalidArgument "MOVING_AVG" (.window size))) := by
  replace isFirst := isArgument_iff.mpr isFirst
  have called := evaluate_movingAverage movingNamed isFirst (isArgument_iff.mpr isWindow) parsed worked
  constructor
  · intro k positive whole valued each
    replace called : evaluate (moving.callTokens [first, window]) { ctx with data := .many records } =
        .ok (.number (Builtin.meanOfLast k (records.filterMap (arg.numberOf? ctx)))) := by
      rw [called, Builtin.window?_eq_some_iff.mpr ⟨positive, whole⟩,
        AggregateArgument.numbers_eq_ok_iff.mpr ⟨valued, each, rfl⟩]
      rfl
    rw [called]
    constructor
    case few =>
      intro fewer
      rw [Builtin.meanOfLast, if_pos (by rwa [arg.length_numbers])]
    case tail =>
      rintro pre post rfl enough
      have reduces : average.spec.builtin.reduction? = some Number.mean := by
        rw [averageNamed]
        rfl
      have mean := (evaluate_reduction reduces isFirst parsed).mpr
        ⟨valued, (List.forall_mem_append.mp each).2, rfl⟩
      rw [mean, List.filterMap_append, Builtin.meanOfLast_append (by rw [arg.length_numbers, enough])]
    case slice =>
      intro enough
      rw [← arg.length_numbers] at enough ⊢
      obtain ⟨start, within, same⟩ := Builtin.exists_start enough
      exact ⟨start, within, by rw [same]⟩
  · intro none
    have unfit : Builtin.window? size = .none := by
      rw [Option.eq_none_iff_forall_ne_some]
      intro k found
      obtain ⟨positive, whole⟩ := Builtin.window?_eq_some_iff.mp found
      exact none k positive whole
    rw [called, unfit]

/-- The mean by its own name. -/
def averageFunction : FunctionName where
  token := .function "AVG"
  spec := { name := "AVG", arity := ⟨1, some 1⟩, mode := .aggregate, builtin := .average
            description := "Mean of the numeric values over all matching records"
            usage := "AVG(value [WHERE condition])" }
  isName := rfl
  found := by with_unfolding_all rfl

/-- The moving average by a field's name. -/
def movingAverageFunction : FunctionName where
  token := .field "moving_avg"
  spec := { name := "MOVING_AVG", arity := ⟨2, some 2⟩, mode := .aggregate, builtin := .movingAverage
            description := "Mean of the last `window` numeric values, 0 if there are fewer"
            usage := "MOVING_AVG(value [WHERE condition], window)" }
  isName := rfl
  found := by with_unfolding_all rfl

/-- A record without an amount does not count for a window, and no window is negative. -/
theorem last_two_amounts :
    evaluate (movingAverageFunction.callTokens [[.field "amount"], [.number 2]])
        { data := .many [amountRecord 1, amountRecord 3, .ofList [], amountRecord 5] } =
      averageFunction.over [.field "amount"] .simple [amountRecord 3, .ofList [], amountRecord 5] ∧
    evaluate (movingAverageFunction.callTokens [[.field "amount"], [.number (-1)]])
        { data := .many [amountRecord 1, amountRecord 3, .ofList [], amountRecord 5] } =
      .error (.invalidArgument "MOVING_AVG" (.window (-1))) := by
  have isArgument {t : Token} (closed : isClosed Token.isComma 0 [t] = true) :=
    isArgument_iff.mp (IsArgument.mk closed (List.cons_ne_nil t []))
  have absent : evaluate amountArgument.value (Context.simple.forRecord (.ofList [])) = .ok .null :=
    evaluate_field (by with_unfolding_all rfl) _
  have worksOut : ∀ record ∈ [amountRecord 1, amountRecord 3, .ofList [], amountRecord 5],
      amountArgument.WorksOut .simple record := by
    have empty : amountArgument.WorksOut .simple (.ofList []) :=
      ⟨by simp [amountArgument], fun _ _ => ⟨_, absent⟩⟩
    simp [worksOut_amount, empty]
  have two : amountArgument.countNumbers .simple [amountRecord 3, .ofList [], amountRecord 5] = 2 := by
    have none : amountArgument.numberOf? .simple (.ofList []) = none := by
      rw [AggregateArgument.numberOf?, valueOf?_amountArgument, absent]
      rfl
    simp [AggregateArgument.countNumbers, numberOf?_amount, none]
  have answers (size : Float) := @movingAverage_averages_tail movingAverageFunction averageFunction rfl rfl
    [.field "amount"] [.number size] (isArgument rfl) (isArgument rfl) _ parse_amount .simple
    [amountRecord 1, amountRecord 3, .ofList [], amountRecord 5] size (evaluateNumber_number (evaluate_number size _))
  have whole : Number.IsWhole 2 2 := Number.isWhole_ofNat (n := 2) (by decide)
  have negative : Number.IsWhole (-1) (-1) := (Number.isWhole_ofNat (n := 1) (by decide)).neg
  refine ⟨((answers 2).1 2 (by decide) whole rfl worksOut).tail [amountRecord 1] _ rfl two, (answers (-1)).2 ?_⟩
  intro k _ other
  have same := negative.value_eq.symm.trans other.value_eq
  have : (-1 : ℤ) = k := by exact_mod_cast same
  omega

end RecordFormula
