import RecordFormula.Proofs.TreeEvaluation

/-!
# Comparisons in conditions and in expressions

A field is compared with a literal in two places. A condition tests the field against the literal, and
an expression works out the two values and compares them. The two agree where the values have an order
by themselves. Where they have none an expression goes on, with 0 in place of null or with an answer for
`=` and `<>`, and a condition matches nothing.

Results:
1. `Number.order?_eq_none_iff`: numbers have an order unless one of them is a NaN.
2. `Comparison.accepts_iff`: a comparison accepts the values that are comparable with its literal and
   compare as it says.
3. `Comparison.toOption_evaluate`: what the tokens of a comparison are worth as an expression.
4. `satisfies_iff_evaluate`: a condition of one comparison matches where the expression is true and the
   values are comparable.
-/

namespace RecordFormula

/-! ## Numbers -/

namespace ComparisonsLemmas

open Float.Model

theorem lt_iff_compare {x y : Float} : x < y ↔ x.toModel.compare y.toModel = some .lt := by
  show decide (x.toModel < y.toModel) = true ↔ _
  rw [decide_eq_true_eq]
  show (x.toModel.compare y.toModel == some .lt) = true ↔ _
  rw [beq_iff_eq]

theorem beq_iff_compare {x y : Float} : (x == y) = true ↔ x.toModel.compare y.toModel = some .eq := by
  show (x.toModel.compare y.toModel == some .eq) = true ↔ _
  rw [beq_iff_eq]

theorem compare_swap (a b : UnpackedFloat) : b.compare a = (a.compare b).map Ordering.swap := by
  cases a with
  | notANumber => cases b <;> rfl
  | infinity s =>
    cases b with
    | infinity t => cases s <;> cases t <;> rfl
    | finite t => cases s <;> cases t <;> rfl
    | _ => cases s <;> rfl
  | zero s =>
    cases b with
    | infinity t => cases t <;> rfl
    | finite t => cases t <;> rfl
    | _ => rfl
  | finite s m e pos =>
    cases b with
    | notANumber => cases s <;> rfl
    | infinity t => cases s <;> cases t <;> rfl
    | zero t => cases s <;> rfl
    | finite t m' e' pos' =>
      have swapped : (compare e' e).then (compare m' m) =
          ((compare e e').then (compare m m')).swap := by
        rw [Ordering.swap_then, Int.compare_swap, Nat.compare_swap]
      cases s <;> cases t
      · exact congrArg (some ·.swap) swapped
      · rfl
      · rfl
      · exact congrArg some swapped

theorem compare_of_isNaN {a b : UnpackedFloat} (nan : a.isNaN = true ∨ b.isNaN = true) :
    a.compare b = none := by
  rcases nan with nan | nan
  · cases a with
    | notANumber => rfl
    | _ => exact absurd nan Bool.false_ne_true
  · cases b with
    | notANumber => cases a <;> rfl
    | _ => exact absurd nan Bool.false_ne_true

theorem exists_compare {a b : UnpackedFloat} (number : a.isNaN = false) (other : b.isNaN = false) :
    ∃ order, a.compare b = some order := by
  cases a with
  | notANumber => exact absurd number (by decide)
  | infinity s =>
    cases b with
    | notANumber => exact absurd other (by decide)
    | infinity t => exact ⟨_, rfl⟩
    | _ => cases s <;> exact ⟨_, rfl⟩
  | zero s =>
    cases b with
    | notANumber => exact absurd other (by decide)
    | infinity t => cases t <;> exact ⟨_, rfl⟩
    | zero t => exact ⟨_, rfl⟩
    | finite t => cases t <;> exact ⟨_, rfl⟩
  | finite s =>
    cases b with
    | notANumber => exact absurd other (by decide)
    | zero t => cases s <;> exact ⟨_, rfl⟩
    | infinity t => cases s <;> cases t <;> exact ⟨_, rfl⟩
    | finite t => cases s <;> cases t <;> exact ⟨_, rfl⟩

end ComparisonsLemmas

open ComparisonsLemmas

/-- The order of two doubles is that of what they stand for. -/
theorem Number.order?_eq_compare (x y : Float) : order? x y = x.toModel.compare y.toModel := by
  have other : y.toModel.compare x.toModel = (x.toModel.compare y.toModel).map Ordering.swap :=
    compare_swap _ _
  unfold order?
  simp only [lt_iff_compare, beq_iff_compare, other]
  cases x.toModel.compare y.toModel with
  | none => rfl
  | some order => cases order <;> rfl

/-- Two numbers have an order unless one of them is a NaN. -/
theorem Number.order?_eq_none_iff {x y : Float} :
    order? x y = none ↔ x.isNaN = true ∨ y.isNaN = true := by
  rw [order?_eq_compare]
  refine ⟨fun none => ?_, compare_of_isNaN⟩
  by_contra numbers
  rw [not_or, Bool.not_eq_true, Bool.not_eq_true] at numbers
  obtain ⟨order, found⟩ := exists_compare numbers.1 numbers.2
  exact absurd (none.symm.trans found) (by simp)

/-! ## Values -/

/-- Whether two values have an order by themselves: both read as numbers, none of which is a NaN, or
both are texts. -/
def Value.Comparable (left right : Value) : Prop :=
  (∃ x y, left.number? = some x ∧ right.number? = some y ∧ x.isNaN = false ∧ y.isNaN = false) ∨
    ∃ s t, left = .text s ∧ right = .text t

/-- A literal as a value. -/
def Literal.value : Literal → Value
  | .number x => .number x
  | .text s => .text s

namespace ComparisonsLemmas

variable {left right : Value} {literal : Literal} {value : FieldValue} {order : Ordering}

theorem number?_ofField (value : FieldValue) : (Value.ofField value).number? = value.number? := by
  cases value <;> rfl

theorem exists_order {x y : Float} (number : x.isNaN = false) (other : y.isNaN = false) :
    ∃ order, Number.order? x y = some order := by
  refine Option.isSome_iff_exists.mp (Option.isSome_iff_ne_none.mpr fun none => ?_)
  rcases Number.order?_eq_none_iff.mp none with nan | nan
  · exact absurd (number.symm.trans nan) (by simp)
  · exact absurd (other.symm.trans nan) (by simp)

theorem not_isNaN_of_order? {x y : Float} (found : Number.order? x y = some order) :
    x.isNaN = false ∧ y.isNaN = false := by
  have some : Number.order? x y ≠ none := by simp [found]
  rw [ne_eq, Number.order?_eq_none_iff, not_or, Bool.not_eq_true, Bool.not_eq_true] at some
  exact some

theorem not_isNaN_of_isFinite {x : Float} (finite : x.isFinite = true) : x.isNaN = false := by
  have finite : x.toModel.unpack.isFinite = true := finite
  show x.toModel.unpack.isNaN = false
  generalize x.toModel.unpack = unpacked at finite ⊢
  cases unpacked with
  | notANumber => exact absurd finite (by decide)
  | _ => rfl

theorem not_isNaN_of_ofText {s : String} {x : Float} (reads : Number.ofText s = some x) :
    x.isNaN = false :=
  not_isNaN_of_isFinite (Option.filter_eq_some_iff.mp reads).2

end ComparisonsLemmas

theorem Value.order?_of_numbers {left right : Value} {x y : Float} (isLeft : left.number? = some x)
    (isRight : right.number? = some y) : left.order? right = Number.order? x y := by
  unfold Value.order?
  simp only [isLeft, isRight]

theorem Value.order?_of_texts (s t : String) :
    (Value.text s).order? (.text t) =
      match Number.ofText s, Number.ofText t with
      | some x, some y => Number.order? x y
      | _, _ => some (compare (Text.lowercase s) (Text.lowercase t)) := by
  rfl

theorem Value.exists_order_of_comparable {left right : Value} (comparable : left.Comparable right) :
    ∃ order, left.order? right = some order := by
  rcases comparable with ⟨x, y, isLeft, isRight, number, other⟩ | ⟨s, t, rfl, rfl⟩
  · rw [Value.order?_of_numbers isLeft isRight]
    exact exists_order number other
  · rw [Value.order?_of_texts]
    split
    · rename_i isLeft isRight
      exact exists_order (not_isNaN_of_ofText isLeft) (not_isNaN_of_ofText isRight)
    · exact ⟨_, rfl⟩

theorem Literal.comparable_of_order? {literal : Literal} {value : FieldValue} {order : Ordering}
    (found : literal.order? value = some order) : (Value.ofField value).Comparable literal.value := by
  unfold Literal.order? at found
  split at found
  · rename_i x
    obtain ⟨y, isNumber, found⟩ := Option.bind_eq_some_iff.mp found
    exact .inl ⟨y, x, (number?_ofField _).trans isNumber, rfl, not_isNaN_of_order? found⟩
  · exact .inr ⟨_, _, rfl, rfl⟩
  · obtain ⟨x, isNumber, found⟩ := Option.bind_eq_some_iff.mp found
    exact .inl ⟨_, x, rfl, isNumber, not_isNaN_of_order? found⟩
  · exact absurd found (by simp)

/-- Where a field and a literal are comparable, a condition sees the order that an expression sees. -/
theorem Literal.order?_of_comparable {literal : Literal} {value : FieldValue}
    (comparable : (Value.ofField value).Comparable literal.value) :
    literal.order? value = (Value.ofField value).order? literal.value := by
  cases literal with
  | number x =>
    rcases comparable with ⟨y, _, isLeft, -⟩ | ⟨s, t, -, isRight⟩
    · rw [Value.order?_of_numbers isLeft rfl, Literal.order?, ← number?_ofField, isLeft]
      rfl
    · exact absurd isRight (by simp [Literal.value])
  | text s =>
    cases value with
    | null =>
      rcases comparable with ⟨y, _, isLeft, -⟩ | ⟨s, t, isLeft, -⟩
      · exact absurd isLeft (by simp [Value.ofField, Value.number?])
      · exact absurd isLeft (by simp [Value.ofField])
    | number y =>
      rcases comparable with ⟨_, x, -, isRight, -⟩ | ⟨s, t, isLeft, -⟩
      · have reads : Number.ofText s = some x := isRight
        rw [Value.order?_of_numbers rfl isRight, Literal.order?, reads]
        rfl
      · exact absurd isLeft (by simp [Value.ofField])
    | text t => exact (Value.order?_of_texts t s).symm

/-- A comparison accepts a value if the two are comparable and compare as it says. -/
theorem Comparison.accepts_iff {comparison : Comparison} {value : FieldValue} :
    comparison.accepts value = true ↔
      (Value.ofField value).Comparable comparison.literal.value ∧
        compareValues comparison.op (.ofField value) comparison.literal.value = .ok (.boolean true) := by
  unfold Comparison.accepts compareValues
  constructor
  · intro accepts
    obtain ⟨order, found, passes⟩ := (Option.any_eq_true ..).mp accepts
    have comparable := Literal.comparable_of_order? found
    refine ⟨comparable, ?_⟩
    rw [Literal.order?_of_comparable comparable] at found
    simp only [found, passes]
  · rintro ⟨comparable, passes⟩
    obtain ⟨order, found⟩ := Value.exists_order_of_comparable comparable
    rw [Literal.order?_of_comparable comparable, found]
    simp only [found] at passes
    exact Value.boolean.inj (Except.ok.inj passes)

/-! ## Tokens -/

namespace ComparisonsLemmas

variable {literal : Literal} {comparison : Comparison} {ts written : List Token}

theorem exists_tree_of_literal (isWritten : literal.IsWritten written) :
    ∃ tree : Tree 1, tree.tokens = written ∧ ∀ ctx, tree.value? ctx = some literal.value := by
  cases isWritten with
  | number x => exact ⟨.tighter (.tighter (.tighter (.number x))), rfl, fun _ => rfl⟩
  | text s => exact ⟨.tighter (.tighter (.tighter (.text s))), rfl, fun _ => rfl⟩
  | negative x => exact ⟨.tighter (.tighter (.signed [.minus] (.number x))), rfl, fun _ => rfl⟩
  | positive x => exact ⟨.tighter (.tighter (.signed [.plus] (.number x))), rfl, fun _ => rfl⟩

theorem exists_tree_of_comparison (isWritten : comparison.IsWritten ts) :
    ∃ tree : Tree 0, tree.tokens = ts ∧ ∀ ctx, tree.value? ctx =
      (ctx.fieldValue comparison.field).toOption.bind fun value =>
        (compareValues comparison.op value comparison.literal.value).toOption := by
  cases isWritten with
  | @intro field op literal written free _ isWritten =>
    obtain ⟨right, rfl, means⟩ := exists_tree_of_literal isWritten
    let left : Tree 0 := .tighter (.tighter (.tighter (.tighter (.field field free))))
    refine ⟨.binary (.compare op) left right, rfl, fun ctx => ?_⟩
    refine (Tree.value?_binary (.compare op) left right ctx).trans ?_
    refine Option.bind_congr fun value _ => ?_
    exact congrArg (Option.bind · fun y => (compareValues op value y).toOption) (means ctx)

end ComparisonsLemmas

/-- What the tokens of a comparison are worth as an expression. -/
theorem Comparison.toOption_evaluate {comparison : Comparison} {ts : List Token}
    (isWritten : comparison.IsWritten ts) (ctx : Context) :
    (evaluate ts ctx).toOption = (ctx.fieldValue comparison.field).toOption.bind fun value =>
      (compareValues comparison.op value comparison.literal.value).toOption := by
  obtain ⟨tree, rfl, means⟩ := exists_tree_of_comparison isWritten
  rw [tree.toOption_evaluate, means]

theorem Context.lookup_of_lenient {ctx : Context} (lenient : ctx.strict = false) (record : Record)
    (name : String) : ctx.lookup record name = .ok (ctx.resolve record name) := by
  rw [Context.lookup, lenient]
  cases ctx.resolve record name <;> rfl

/-- Where absent fields are null, a record has an answer to every condition: whether it accepts all the
comparisons. -/
theorem Context.satisfies_of_lenient {ctx : Context} (lenient : ctx.strict = false)
    (condition : Condition) (record : Record) :
    ctx.satisfies condition record = .ok (condition.comparisons.all fun comparison =>
      comparison.accepts ((ctx.resolve record comparison.field).getD .null)) := by
  rw [Context.satisfies]
  induction condition.comparisons with
  | nil => rfl
  | cons comparison comparisons ih =>
    rw [Context.passes, lookup_of_lenient lenient, List.all_cons]
    show (if _ then ctx.passes record comparisons else .ok false) = _
    cases comparison.accepts ((ctx.resolve record comparison.field).getD .null) with
    | true => exact ih
    | false => rfl

/-- A condition of one comparison matches a record exactly if the field and the literal are comparable
and the comparison, as an expression over the record, is true. The field is looked up under its own name
alone, and null if absent. -/
theorem satisfies_iff_evaluate {ts : List Token} {comparison : Comparison}
    (parsed : Condition.parse ts = .ok ⟨[comparison]⟩) (data : Data) (record : Record) :
    ({ data } : Context).satisfies ⟨[comparison]⟩ record = .ok true ↔
      (Value.ofField ((record.get? comparison.field).getD .null)).Comparable comparison.literal.value ∧
        evaluate ts { data := .single record } = .ok (.boolean true) := by
  have isWritten : comparison.IsWritten ts := by
    cases Condition.written_of_parse parsed with
    | last isWritten => exact isWritten
    | more _ _ behind => cases behind
  have field : ({ data := .single record } : Context).fieldValue comparison.field =
      .ok (.ofField ((record.get? comparison.field).getD .null)) := by
    show (Context.lookup { data := .single record } record comparison.field >>= _) = _
    rw [Context.lookup_of_lenient rfl]
    rfl
  have expression : evaluate ts { data := .single record } = .ok (.boolean true) ↔
      compareValues comparison.op (.ofField ((record.get? comparison.field).getD .null))
        comparison.literal.value = .ok (.boolean true) := by
    rw [← toOption_eq_some_iff, Comparison.toOption_evaluate isWritten, field]
    exact toOption_eq_some_iff
  rw [Context.satisfies_of_lenient rfl, expression, ← Comparison.accepts_iff, Except.ok.injEq,
    List.all_cons, List.all_nil, Bool.and_true]
  rfl

/-- The days past due are more than -30. -/
def lateOrSoonDue : List Token :=
  [.field "dpd", .operator .greater, .operator .minus, .number 30]

/-- A number is matched. Null is not, though as an expression it is 0 and greater than -30. -/
theorem lateOrSoonDue_matches_no_null :
    Condition.parse lateOrSoonDue = .ok ⟨[⟨"dpd", .greater, .number (-30)⟩]⟩ ∧
      ({ data := .many [] } : Context).satisfies ⟨[⟨"dpd", .greater, .number (-30)⟩]⟩
        (.ofList [("dpd", .number 7)]) = .ok true ∧
      evaluate lateOrSoonDue { data := .single (.ofList [("dpd", .null)]) } = .ok (.boolean true) ∧
      ({ data := .many [] } : Context).satisfies ⟨[⟨"dpd", .greater, .number (-30)⟩]⟩
        (.ofList [("dpd", .null)]) ≠ .ok true := by
  have parsed : Condition.parse lateOrSoonDue = .ok ⟨[⟨"dpd", .greater, .number (-30)⟩]⟩ := by
    with_unfolding_all rfl
  have same := satisfies_iff_evaluate parsed (.many [])
  refine ⟨parsed, (same _).mpr ⟨?_, ?_⟩, ?_, fun found => ?_⟩
  · exact .inl ⟨7, -30, rfl, rfl, by decide +kernel, by decide +kernel⟩
  · with_unfolding_all rfl
  · with_unfolding_all rfl
  · rcases ((same _).mp found).1 with ⟨x, _, isNumber, -⟩ | ⟨s, _, isText, -⟩
    · exact absurd (show none = some x from isNumber) (by simp)
    · exact absurd (show Value.null = .text s from isText) (by simp)

end RecordFormula
