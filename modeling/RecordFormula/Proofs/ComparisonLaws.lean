import RecordFormula.Proofs.Comparisons
import RecordFormula.Proofs.Quotients

/-!
# Laws of comparison

How two values are compared depends on both of them: as numbers, as texts, or with 0 in place of null. Each of
these ways treats its two sides alike. So the answers to the six comparisons follow from one order of the two
values, which is turned around when the sides are, or there is no order and all but `=` and `<>` fail.

Results:
1. `evaluate_comparison`: what an expression that compares two groups is worth.
2. `Value.order?_swap`: the order of two values the other way round.
3. `comparisons_coherent`: the answers to the six comparisons of two values agree with each other, and with
   those the other way round.
-/

namespace RecordFormula

open CallSpansLemmas CheckedLemmas ComparisonsLemmas FiltersLemmas NestingLemmas PrecedenceLemmas QuotientsLemmas
  ResolveLemmas TreeLemmas

/-! ## Comparisons as expressions -/

/-- What a comparison of two operands is worth. -/
def compared (op : Comparator) (left right : Value) : Except EvalError Value :=
  reduce (.value left :: (op.operators.map .operator ++ [.value right]))

/-- Two groups and a comparison between them. -/
def comparison (op : Comparator) (left right : List Token) : List Token :=
  grouped left ++ (op.operators.map .operator ++ grouped right)

section Expressions

variable {op : Comparator} {v w : Value} {ctx : Context} {a b : List Token}

namespace ComparisonLawsLemmas

theorem plain_operators (op : Comparator) : ∀ t ∈ op.operators.map Term.operator, Plain t := by
  cases op <;> simp [Comparator.operators, Plain]

theorem plain_comparison (op : Comparator) (v w : Value) :
    ∀ t ∈ Term.value v :: (op.operators.map .operator ++ [.value w]), Plain t := by
  rw [List.forall_mem_cons, List.forall_mem_append, List.forall_mem_singleton]
  exact ⟨plain_value v, plain_operators op, plain_value w⟩

end ComparisonLawsLemmas

open ComparisonLawsLemmas

theorem compared_eq_reduceFlat (op : Comparator) (v w : Value) :
    compared op v w = reduceFlat (.value v :: (op.operators.map .operator ++ [.value w])) := by
  rw [compared, reduce, reduceFrom_plain (plain_comparison op v w)]
  rfl

theorem compared_eq (op : Comparator) (v w : Value) : compared op v w = compareValues op v w := by
  let row : Row := { first := ⟨[], v⟩, steps := [(.compare op, ⟨[], w⟩)] }
  have terms : row.terms = .value v :: (op.operators.map .operator ++ [.value w]) := by
    simp [row, Row.terms, Row.stepTerms, Operand.terms, BinaryOp.operators]
  have read : row.read = .ok (v, [(.compare op, w)]) := rfl
  have lowest : ∀ step ∈ [((.compare op, w) : Step)], step.1.level = 0 := by simp [BinaryOp.level]
  rw [compared_eq_reduceFlat, ← terms, reduceFlat_of_level read lowest (Nat.zero_le 2), List.foldlM_cons, carryOut,
    BinaryOp.apply]
  cases compareValues op v w <;> rfl

/-- An expression that compares two groups is worth what the comparison of their values is. -/
theorem evaluate_comparison (left : IsArgument a) (right : IsArgument b) (leftValue : evaluate a ctx = .ok v)
    (rightValue : evaluate b ctx = .ok w) : evaluate (comparison op a b) ctx = compared op v w := by
  rw [evaluate_eq] at leftValue rightValue
  obtain ⟨front, leftFound, leftReduced⟩ := exists_of_bind_eq_ok leftValue
  obtain ⟨next, rightFound, rightReduced⟩ := exists_of_bind_eq_ok rightValue
  have rightGroup := (congrArg (resolve evaluate ctx) (List.append_nil (grouped b)).symm).trans
    (resolve_group right.closed [])
  rw [rightFound, resolve] at rightGroup
  rw [comparison, evaluate_eq, evaluateLevel, resolve_group left.closed, resolve_operators_append, leftFound,
    rightGroup]
  calc reduceFrom [] [] (.operator .leftParen :: (front ++ .operator .rightParen ::
        (op.operators.map .operator ++ .operator .leftParen :: (next ++ [.operator .rightParen]))))
    _ = reduceFrom [] [.value v]
          (op.operators.map .operator ++ .operator .leftParen :: (next ++ [.operator .rightParen])) := by
      rw [reduceFrom_group left.closed left.full leftFound, leftReduced]
      rfl
    _ = reduceFlat (.value v :: (op.operators.map .operator ++ [.value w])) := by
      rw [reduceFrom_plain_append (plain_operators op), reduceFrom_group right.closed right.full rightFound,
        rightReduced]
      rfl
    _ = compared op v w := (compared_eq_reduceFlat op v w).symm

end Expressions

/-! ## The other way round -/

/-- The comparison that says the same of two sides that have changed places. -/
def Comparator.swapped : Comparator → Comparator
  | .equal => .equal
  | .notEqual => .notEqual
  | .less => .greater
  | .lessEqual => .greaterEqual
  | .greater => .less
  | .greaterEqual => .lessEqual

theorem Comparator.test_swapped (op : Comparator) (order : Ordering) :
    op.swapped.test order.swap = op.test order := by
  cases op <;> cases order <;> rfl

theorem Number.order?_swap (x y : Float) : order? y x = (order? x y).map Ordering.swap := by
  rw [order?_eq_compare, order?_eq_compare]
  exact compare_swap _ _

/-- Values that are not both numbers, nor both texts, have the order of the numbers that arithmetic reads them
as. -/
theorem Value.order?_of_toNumber {v w : Value} (apart : v.number? = none ∨ w.number? = none)
    (notTexts : ∀ s t, v = .text s → w ≠ .text t) :
    v.order? w = match v.toNumber, w.toNumber with
      | .ok x, .ok y => Number.order? x y
      | _, _ => none := by
  unfold Value.order?
  split
  · rename_i left right
    rcases apart with none | none <;> simp [none] at left right
  · split
    · exact absurd rfl (notTexts _ _ rfl)
    · rfl

/-- The order of two values is turned around with them. -/
theorem Value.order?_swap (v w : Value) : w.order? v = (v.order? w).map Ordering.swap := by
  by_cases numbers : v.number? = none ∨ w.number? = none
  · by_cases texts : ∃ s t, v = .text s ∧ w = .text t
    · obtain ⟨s, t, rfl, rfl⟩ := texts
      rw [order?_of_texts, order?_of_texts]
      rcases numbers with none | none <;> replace none : Number.ofText _ = Option.none := none
      · rw [none]
        cases Number.ofText t <;> exact congrArg some Std.OrientedOrd.eq_swap
      · rw [none]
        cases Number.ofText s <;> exact congrArg some Std.OrientedOrd.eq_swap
    · rw [order?_of_toNumber numbers fun s t left right => texts ⟨s, t, left, right⟩,
        order?_of_toNumber numbers.symm fun s t left right => texts ⟨t, s, right, left⟩]
      cases v.toNumber with
      | error reason => cases w.toNumber <;> rfl
      | ok x =>
        cases w.toNumber with
        | error reason => rfl
        | ok y => exact Number.order?_swap x y
  · obtain ⟨some, some'⟩ := not_or.mp numbers
    obtain ⟨x, left⟩ := Option.ne_none_iff_exists'.mp some
    obtain ⟨y, right⟩ := Option.ne_none_iff_exists'.mp some'
    rw [order?_of_numbers left right, order?_of_numbers right left, Number.order?_swap]

/-! ## The six comparisons -/

/-- Two comparisons have one answer, or both find that their operands do not fit together. -/
inductive SameOutcome : Except EvalError Value → Except EvalError Value → Prop
  | answer (v : Value) : SameOutcome (.ok v) (.ok v)
  | mismatch (reason reason' : TypeMismatch) :
      SameOutcome (.error (.typeMismatch reason)) (.error (.typeMismatch reason'))

/-- Exactly one of `<`, `=` and `>` is true of two values, and `<=` and `>=` are the opposites of `>` and `<`. -/
def Ordered (v w : Value) : Prop :=
  ∃ less equal greater : Bool, [less, equal, greater].count true = 1 ∧
    compared .less v w = .ok (.boolean less) ∧ compared .equal v w = .ok (.boolean equal) ∧
    compared .greater v w = .ok (.boolean greater) ∧ compared .lessEqual v w = .ok (.boolean !greater) ∧
    compared .greaterEqual v w = .ok (.boolean !less)

/-- Two values are not equal, and none of them can be said to be in front of the other. -/
def Unordered (v w : Value) : Prop :=
  compared .equal v w = .ok (.boolean false) ∧
    ∀ op, op.isEquality = false → ∃ reason, compared op v w = .error (.typeMismatch reason)

section Laws

variable {v w : Value}

theorem compared_of_order {order : Ordering} (found : v.order? w = some order) (op : Comparator) :
    compared op v w = .ok (.boolean (op.test order)) := by
  simp only [compared_eq, compareValues, found]

theorem compared_of_none (none : v.order? w = none) (op : Comparator) :
    compared op v w = if op.isEquality then .ok (.boolean (op == .notEqual))
      else .error (.typeMismatch (.incomparable op v w)) := by
  simp only [compared_eq, compareValues, none]

theorem ordered_of_order {order : Ordering} (found : v.order? w = some order) : Ordered v w := by
  refine ⟨Comparator.less.test order, Comparator.equal.test order, Comparator.greater.test order, ?_,
    compared_of_order found _, compared_of_order found _, compared_of_order found _, ?_, ?_⟩
  · cases order <;> rfl
  · rw [compared_of_order found]
    cases order <;> rfl
  · rw [compared_of_order found]
    cases order <;> rfl

theorem unordered_of_none (none : v.order? w = none) : Unordered v w := by
  refine ⟨compared_of_none none .equal, fun op order => ⟨.incomparable op v w, ?_⟩⟩
  rw [compared_of_none none, order]
  rfl

/-- Comparisons of two values agree with each other. Any values are equal or not, and not both. They have an
order, which all six comparisons follow, or they are unequal and the four that ask for an order fail. The other
way round the opposite comparison has the same outcome. -/
theorem comparisons_coherent (v w : Value) :
    (∃ equal : Bool, compared .equal v w = .ok (.boolean equal) ∧
      compared .notEqual v w = .ok (.boolean !equal)) ∧
    (Ordered v w ∨ Unordered v w) ∧
    ∀ op, SameOutcome (compared op v w) (compared op.swapped w v) := by
  have swap := Value.order?_swap v w
  cases found : v.order? w with
  | some order =>
    rw [found, Option.map_some] at swap
    refine ⟨⟨Comparator.equal.test order, compared_of_order found _, ?_⟩, .inl (ordered_of_order found),
      fun op => ?_⟩
    · rw [compared_of_order found]
      rfl
    · rw [compared_of_order found, compared_of_order swap, op.test_swapped]
      exact .answer _
  | none =>
    rw [found, Option.map_none] at swap
    refine ⟨⟨false, compared_of_none found .equal, compared_of_none found .notEqual⟩,
      .inr (unordered_of_none found), fun op => ?_⟩
    rw [compared_of_none found, compared_of_none swap]
    cases op with
    | equal | notEqual => exact .answer _
    | _ => exact .mismatch _ _

end Laws

end RecordFormula
