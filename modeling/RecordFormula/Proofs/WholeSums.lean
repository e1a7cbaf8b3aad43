import RecordFormula.Proofs.CallSpans
import RecordFormula.Proofs.DecimalSums
import RecordFormula.Proofs.RecordValues
import RecordFormula.Proofs.WholeNumbers

/-!
# Sums of whole numbers

A whole number becomes a decimal with no digits behind the point, whichever way its power of two goes: units
that are too many are halved, which leaves no remainder, and units that are too few are doubled. So a sum of
whole numbers in decimals is their sum, and in doubles it is too as long as no partial sum needs more bits
than a double has.

Results:
1. `ofFloat?_of_isWhole`: a whole number as a decimal.
2. `isWhole_sum` and `isWhole_floatTotal`: the two sums of whole numbers that are not too large together.
3. `whole_sum_in_any_order`: the sum over records is the sum of their numbers, in any order.
-/

namespace RecordFormula.Number

attribute [local instance] natPow

open Decimal Magnitude DoublesLemmas DecimalSumsLemmas

variable {x : Float} {k : ℤ}

namespace WholeSumsLemmas

theorem halve_of_multiple (n j : ℕ) (power : ℤ) : halve j ⟨n * 2 ^ j, power⟩ = ⟨n, power + j⟩ := by
  induction j generalizing power with
  | zero => simp [halve]
  | succ j ih =>
    have even : n * 2 ^ (j + 1) = n * 2 ^ j * 2 := by rw [pow_succ, mul_assoc]
    have half : n * 2 ^ j * 2 / 2 = n * 2 ^ j := Nat.mul_div_cancel _ (by decide)
    rw [halve, even]
    simp only [Nat.mul_mod_left, if_true, half]
    rw [ih]
    congr 1
    push_cast
    ring

theorem double_of_fits {n j : ℕ} (fits : n * 2 ^ j < bound) (power : ℤ) :
    double j ⟨n, power⟩ = some ⟨n * 2 ^ j, power - j⟩ := by
  induction j generalizing n power with
  | zero => simp [double]
  | succ j ih =>
    have twice : n * 2 ^ (j + 1) = n * 2 * 2 ^ j := by rw [pow_succ]; ring
    rw [twice] at fits ⊢
    have room : n < bound / 2 := by
      have : n * 2 ≤ n * 2 * 2 ^ j := Nat.le_mul_of_pos_right _ (by positivity)
      unfold bound at fits ⊢
      omega
    rw [double, if_pos room, ih fits]
    congr 2
    push_cast
    ring

/-- A whole number in base two is that number in base ten. -/
theorem ofBinary_of_whole {units n : ℕ} {e : ℤ} (whole : (units : ℚ) * 2 ^ e = n) (fits : n < bound) :
    ofBinary units e = some ⟨n, 0⟩ := by
  unfold ofBinary
  by_cases fraction : e < 0
  · obtain ⟨places, rfl⟩ : ∃ places : ℕ, e = -places := ⟨(-e).toNat, by omega⟩
    rw [zpow_neg, zpow_natCast, ← div_eq_mul_inv, div_eq_iff (by positivity)] at whole
    obtain rfl : units = n * 2 ^ places := by exact_mod_cast whole
    rw [if_pos fraction, neg_neg, Int.toNat_natCast, halve_of_multiple, neg_add_cancel]
  · obtain ⟨places, rfl⟩ := Int.eq_ofNat_of_zero_le (not_lt.mp fraction)
    rw [zpow_natCast] at whole
    obtain rfl : units * 2 ^ places = n := by exact_mod_cast whole
    rw [if_neg fraction, Int.toNat_natCast, double_of_fits fits, sub_self]

/-- A whole number is a decimal with no digits behind the point. -/
theorem ofFloat?_of_isWhole (whole : IsWhole x k) (fits : k.natAbs < bound) :
    ∃ d, ofFloat? x = some d ∧ d.HasUnits 0 k := by
  have size := whole.magnitude_eq
  have signed := whole.value_eq
  refine ⟨{ negative := isNegative x, units := k.natAbs, scale := 0 }, ?_, le_refl _, ?_⟩
  · rw [ofFloat?, whole.finite, if_neg (by decide)]
    split
    · rename_i none
      rw [magnitude, none, Nat.cast_zero, zero_mul, eq_comm, Nat.cast_eq_zero] at size
      rw [size]
    · rw [ofBinary_of_whole size fits]
      rfl
  · rw [value, size] at signed
    show (if isNegative x then -((k.natAbs * 10 ^ 0 : ℕ) : ℤ) else (k.natAbs * 10 ^ 0 : ℕ)) = k
    rw [pow_zero, mul_one]
    generalize k.natAbs = n at signed ⊢
    split <;> rename_i negative
    · rw [if_pos negative] at signed
      exact_mod_cast signed
    · rw [if_neg negative] at signed
      exact_mod_cast signed

theorem toFloat_of_units {d : Decimal} (units : d.HasUnits 0 k) (few : k.natAbs ≤ 2 ^ 53) :
    IsWhole d.toFloat k := by
  obtain ⟨negative, n, scale⟩ := d
  obtain ⟨short, same⟩ := units
  obtain rfl : scale = 0 := Nat.le_zero.mp short
  simp only [unitsAt, Nat.sub_self, pow_zero, Nat.mul_one] at same
  have size : n = k.natAbs := by
    rw [← same]
    split <;> simp
  have whole : IsWhole (Float.ofNat n) n := isWhole_ofNat (size ▸ few)
  have shown : Decimal.magnitudeToFloat ⟨negative, n, 0⟩ = Float.ofNat n := rfl
  unfold toFloat
  rw [shown]
  cases negative with
  | false => exact same ▸ whole
  | true =>
    rw [if_pos rfl] at same
    rcases Nat.eq_zero_or_pos n with rfl | positive
    · exact same ▸ whole
    · have nonzero : (n == 0) = false := beq_false_of_ne positive.ne'
      simp only [nonzero, Bool.and_false, Bool.not_false, Bool.and_true, if_true]
      exact same ▸ whole.neg

theorem isWhole_foldl {total : Float} {xs : List Float} {ks : List ℤ} (start : IsWhole total k)
    (whole : List.Forall₂ IsWhole xs ks) (few : k.natAbs + (ks.map Int.natAbs).sum ≤ 2 ^ 53) :
    IsWhole (xs.foldl (· + ·) total) (k + ks.sum) := by
  induction whole generalizing total k with
  | nil => simpa using start
  | @cons x j xs ks isWhole _ ih =>
    rw [List.map_cons, List.sum_cons] at few
    have next : IsWhole (total + x) (k + j) := start.add isWhole (by omega)
    rw [List.foldl_cons, List.sum_cons, ← add_assoc]
    exact ih next (by omega)

end WholeSumsLemmas

open WholeSumsLemmas

/-- The sum of whole numbers that are not too large together is exact. -/
theorem isWhole_sum {xs : List Float} {ks : List ℤ} (whole : List.Forall₂ IsWhole xs ks)
    (few : (ks.map Int.natAbs).sum ≤ 2 ^ 53) : IsWhole (sum xs) ks.sum := by
  have converted : List.Forall₂ (fun x k => ∃ d, ofFloat? x = some d ∧ d.HasUnits 0 k) xs ks := by
    refine List.forall₂_iff_zip.mpr ⟨whole.length_eq, fun {x k} mem => ?_⟩
    have among := List.mem_map_of_mem (f := Int.natAbs) (List.of_mem_zip mem).2
    have least : k.natAbs ≤ (ks.map Int.natAbs).sum := List.single_le_sum (by simp) _ among
    refine ofFloat?_of_isWhole ((List.forall₂_iff_zip.mp whole).2 mem) ?_
    unfold bound
    omega
  have start : Decimal.zero.HasUnits 0 0 := ⟨le_refl _, rfl⟩
  obtain ⟨d, total, units⟩ := decimalTotal_of_units converted start (by unfold bound; simp; omega)
  rw [zero_add] at units
  rw [sum, total]
  exact toFloat_of_units units ((natAbs_sum_le ks).trans few)

/-- So is the sum from left to right in doubles. -/
theorem isWhole_floatTotal {xs : List Float} {ks : List ℤ} (whole : List.Forall₂ IsWhole xs ks)
    (few : (ks.map Int.natAbs).sum ≤ 2 ^ 53) : IsWhole (floatTotal xs) ks.sum := by
  have zero : IsWhole 0 0 := isWhole_ofNat (Nat.zero_le _)
  have total := isWhole_foldl zero whole (by rwa [Int.natAbs_zero, zero_add])
  rwa [zero_add] at total

/-- Both sums of whole numbers are the sum of what they stand for. -/
theorem exists_isWhole_sum {xs : List Float} (whole : ∀ x ∈ xs, ∃ k, IsWhole x k)
    (few : (xs.map fun x => |value x|).sum ≤ 2 ^ 53) :
    ∃ k : ℤ, (k : ℚ) = (xs.map value).sum ∧ IsWhole (sum xs) k ∧ IsWhole (floatTotal xs) k := by
  obtain ⟨ks, ks_eq⟩ : ∃ ks, ks = xs.map fun x => ⌊value x⌋ := ⟨_, rfl⟩
  have floor (x : Float) (mem : x ∈ xs) : value x = ⌊value x⌋ := by
    obtain ⟨k, isWhole⟩ := whole x mem
    rw [isWhole.value_eq, Int.floor_intCast]
  have each : List.Forall₂ IsWhole xs ks := by
    rw [ks_eq, List.forall₂_map_right_iff, List.forall₂_same]
    intro x mem
    obtain ⟨k, isWhole⟩ := whole x mem
    rwa [isWhole.value_eq, Int.floor_intCast]
  have total : (ks.sum : ℚ) = (xs.map value).sum := by
    rw [Int.cast_list_sum, ks_eq, List.map_map]
    exact congrArg List.sum (List.map_congr_left fun x mem => (floor x mem).symm)
  have size : (((ks.map Int.natAbs).sum : ℕ) : ℚ) = (xs.map fun x => |value x|).sum := by
    rw [Nat.cast_list_sum, ks_eq, List.map_map, List.map_map]
    refine congrArg List.sum (List.map_congr_left fun x mem => ?_)
    rw [floor x mem]
    simp
  have few : (ks.map Int.natAbs).sum ≤ 2 ^ 53 := by
    rw [← size] at few
    exact_mod_cast few
  exact ⟨ks.sum, total, isWhole_sum each few, isWhole_floatTotal each few⟩

end RecordFormula.Number

namespace RecordFormula

open RecordValuesLemmas

/-- The sum of an argument whose numbers are whole, and not too large together, is exactly their sum. So it is
the sum that doubles have from left to right, and the same for the records in any order. -/
theorem whole_sum_in_any_order {function : FunctionName} (named : function.spec.builtin = .sum)
    {first : List Token} (isFirst : first ≠ [] ∧ Balanced first ∧ AllInside Token.isComma first)
    {arg : AggregateArgument} (parsed : AggregateArgument.parse first = .ok arg)
    (valued : arg.isWildcard = false) {ctx : Context} {records : List Record}
    (each : ∀ record ∈ records, arg.WorksOut ctx record)
    (whole : ∀ x ∈ records.filterMap (arg.numberOf? ctx), ∃ k, Number.IsWhole x k)
    (few : ((records.filterMap (arg.numberOf? ctx)).map fun x => |Number.value x|).sum ≤ 2 ^ 53) :
    ∃ total, function.over first ctx records = .ok (.number total) ∧ total.isFinite = true ∧
      Number.value total = ((records.filterMap (arg.numberOf? ctx)).map Number.value).sum ∧
      (total == Number.floatTotal (records.filterMap (arg.numberOf? ctx))) = true ∧
      ∀ others, others.Perm records →
        ∃ total', function.over first ctx others = .ok (.number total') ∧ (total' == total) = true := by
  have isArgument := isArgument_iff.mpr isFirst
  have reduces : function.spec.builtin.reduction? = some Number.sum := by
    rw [named]
    rfl
  have called {records : List Record} (each : ∀ record ∈ records, arg.WorksOut ctx record) :=
    (evaluate_reduction reduces isArgument parsed).mpr ⟨valued, each, rfl⟩
  obtain ⟨k, total, summed, plain⟩ := Number.exists_isWhole_sum whole few
  refine ⟨_, called each, summed.finite, summed.value_eq.trans total, Number.beq_of_isWhole summed plain, ?_⟩
  intro others perm
  have numbers : (others.filterMap (arg.numberOf? ctx)).Perm (records.filterMap (arg.numberOf? ctx)) :=
    perm.filterMap _
  have whole' : ∀ x ∈ others.filterMap (arg.numberOf? ctx), ∃ k, Number.IsWhole x k :=
    fun x mem => whole x (numbers.mem_iff.mp mem)
  have few' : ((others.filterMap (arg.numberOf? ctx)).map fun x => |Number.value x|).sum ≤ 2 ^ 53 := by
    rwa [(numbers.map _).sum_eq]
  obtain ⟨k', total', summed', -⟩ := Number.exists_isWhole_sum whole' few'
  rw [(numbers.map _).sum_eq, ← total] at total'
  obtain rfl : k' = k := by exact_mod_cast total'
  exact ⟨_, called fun record mem => each record (perm.mem_iff.mp mem), Number.beq_of_isWhole summed' summed⟩

/-- The largest whole number of 53 bits and the next one below zero have an exact sum in either order. -/
theorem largest_amount_total :
    ∃ total total',
      sumFunction.over [.field "amount"] .simple ([9007199254740991, -1].map amountRecord) = .ok (.number total) ∧
      Number.value total = 9007199254740990 ∧
      sumFunction.over [.field "amount"] .simple ([-1, 9007199254740991].map amountRecord) = .ok (.number total') ∧
      (total' == total) = true := by
  have isFirst : IsArgument [Token.field "amount"] := ⟨rfl, by simp⟩
  have most : Number.IsWhole 9007199254740991 9007199254740991 := Number.isWhole_ofNat (by decide)
  have less : Number.IsWhole (-1) (-1) := (Number.isWhole_ofNat (n := 1) (by decide)).neg
  have numbers := numbers_of_amounts [9007199254740991, -1]
  have each : ∀ record ∈ [9007199254740991, -1].map amountRecord,
      amountArgument.WorksOut .simple record := by
    simp [worksOut_amount]
  have whole : ∀ x ∈ [9007199254740991, -1], ∃ k, Number.IsWhole x k :=
    List.forall_mem_cons.mpr ⟨⟨_, most⟩, List.forall_mem_singleton.mpr ⟨_, less⟩⟩
  have few : ([9007199254740991, -1].map fun x => |Number.value x|).sum ≤ 2 ^ 53 := by
    simp [most.value_eq, less.value_eq]
    norm_num
  obtain ⟨total, summed, -, same, -, orders⟩ :=
    @whole_sum_in_any_order sumFunction rfl [.field "amount"] (isArgument_iff.mp isFirst) amountArgument
      parse_amount rfl .simple _ each (numbers.symm ▸ whole) (numbers.symm ▸ few)
  obtain ⟨total', summed', equal⟩ := orders ([-1, 9007199254740991].map amountRecord) (List.Perm.swap ..)
  refine ⟨total, total', summed, ?_, summed', equal⟩
  rw [same, numbers]
  simp [most.value_eq, less.value_eq]
  norm_num

end RecordFormula
