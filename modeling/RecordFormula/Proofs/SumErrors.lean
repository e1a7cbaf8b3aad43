import RecordFormula.Proofs.DecimalDoubles

/-!
# What a sum loses

A sum of doubles that are not below zero is taken in decimals or, where one of them is not to be had, in doubles.
Either way it is within a small part of the exact sum, for each addend. But a decimal has 28 digits behind the
point at most, and what is smaller is lost, be it all there is.

Results:
1. `add_close`: what a sum of two doubles is off.
2. `floatTotal_close`: what a sum in doubles is off.
3. `sum_close`: what a sum is off, and when nothing is left of it.
-/

namespace RecordFormula.Number

open Decimal DoublesLemmas RoundingLemmas

/-- Half a unit of the last place of the largest double. -/
def lastHalf : ℚ := 2 ^ (970 : ℤ)

namespace SumErrorsLemmas

variable {x y : Float} {q r : ℚ}

theorem lastHalf_pos : 0 < lastHalf := by unfold lastHalf; positivity

theorem isRounded_value (rounds : Rounds x q) (nonneg : 0 ≤ q) : IsRounded (value x) q ∧ 0 ≤ value x := by
  have rounded := rounds.rounded
  rw [abs_of_nonneg nonneg] at rounded
  cases signed : isNegative x with
  | false =>
    rw [value_of_unsigned signed]
    exact ⟨rounded, magnitude_nonneg x⟩
  | true =>
    obtain rfl : q = 0 := le_antisymm (rounds.nonpos signed) nonneg
    have zero : (0 : ℚ) = (0 : ℕ) * 2 ^ (0 : ℤ) := by norm_num
    have none : magnitude x = 0 := by
      rw [zero] at rounded ⊢
      exact rounded.exact (by decide) (by decide)
    rw [value, signed, if_pos rfl, none, neg_zero]
    exact ⟨none ▸ rounded, le_refl _⟩

/-- Rounding changes a number by no more than half a unit of the last place of the largest double. -/
theorem abs_sub_le_of_isRounded (rounded : IsRounded r q) (small : q < overflow) : |r - q| ≤ lastHalf := by
  obtain ⟨units, e, rfl, close, -, full, -⟩ := rounded
  have high : e ≤ 971 := by
    rcases full with rfl | full
    · decide
    · exact exponent_le_of_lt full small
  calc |(units : ℚ) * 2 ^ e - q| ≤ 2 ^ e / 2 := close
    _ ≤ 2 ^ (971 : ℤ) / 2 := by
      gcongr
      norm_num
    _ = lastHalf := by
      rw [lastHalf, show (971 : ℤ) = 970 + 1 by norm_num, zpow_add_one₀ two_ne_zero,
        mul_div_cancel_right₀ _ two_ne_zero]

theorem exponent_ge (x : Float) : -1074 ≤ exponent x := by
  unfold exponent
  omega

/-- A sum of doubles is rounded to 53 bits, or is a double. -/
theorem close_of_isRounded (rounded : IsRounded r (value x + value y)) :
    |r - (value x + value y)| ≤ (value x + value y) / 2 ^ 53 := by
  obtain ⟨units, e, rfl, close, -, least | full, -⟩ := rounded
  · obtain ⟨n, left⟩ := exists_value_eq x (least.trans_le (exponent_ge x))
    obtain ⟨m, right⟩ := exists_value_eq y (least.trans_le (exponent_ge y))
    have sum : value x + value y = (n + m : ℤ) * 2 ^ e := by
      rw [left, right]
      push_cast
      ring
    have power : (0 : ℚ) < 2 ^ e := by positivity
    rw [← Int.cast_natCast units] at close ⊢
    have nearest := abs_sub_le_of_int (n + m) power close
    rw [← sum, sub_self, abs_zero] at nearest
    have exact := abs_eq_zero.mp (le_antisymm nearest (abs_nonneg _))
    rw [exact, abs_zero, ← sub_eq_zero.mp exact]
    positivity
  · refine close.trans ?_
    linarith

theorem isFinite_of_foldl {xs : List Float} {f : Float} (finite : (xs.foldl (· + ·) f).isFinite = true) :
    f.isFinite = true := by
  induction xs generalizing f with
  | nil => exact finite
  | cons x xs ih =>
    by_contra infinite
    exact absurd (ih finite) (by rw [isFinite_add_of_infinite (Bool.not_eq_true _ ▸ infinite) x]; decide)

end SumErrorsLemmas

open SumErrorsLemmas

/-! ## Sums in doubles -/

section Doubles

variable {x y f : Float} {xs : List Float}

/-- The sum of two doubles is off by a part of itself, by no more than either side, and by no more than half a unit of
the last place of the largest double. -/
theorem add_close (left : IsAddend x) (right : IsAddend y) (small : value x + value y < overflow) :
    IsAddend (x + y) ∧ |value (x + y) - (value x + value y)| ≤ (value x + value y) / 2 ^ 53 ∧
      |value (x + y) - (value x + value y)| ≤ value x ∧ |value (x + y) - (value x + value y)| ≤ value y ∧
      |value (x + y) - (value x + value y)| ≤ lastHalf := by
  obtain ⟨finite, nonneg⟩ := left
  obtain ⟨finite', nonneg'⟩ := right
  have total : 0 ≤ value x + value y := add_nonneg nonneg nonneg'
  have rounds := (rounds_add finite finite' (by rwa [abs_of_nonneg total])).1
  obtain ⟨rounded, above⟩ := isRounded_value rounds total
  have byLeft := rounded.nearest finite'
  have byRight := rounded.nearest finite
  rw [sub_add_cancel_right, abs_neg, abs_of_nonneg nonneg] at byLeft
  rw [sub_add_cancel_left, abs_neg, abs_of_nonneg nonneg'] at byRight
  exact ⟨⟨rounds.finite, above⟩, close_of_isRounded rounded, byLeft, byRight, abs_sub_le_of_isRounded rounded small⟩

theorem foldl_add_close (start : IsAddend f) (addends : ∀ x ∈ xs, IsAddend x)
    (finite : (xs.foldl (· + ·) f).isFinite = true) :
    |value (xs.foldl (· + ·) f) - (value f + (xs.map value).sum)| ≤
      xs.length * ((value f + 2 * (xs.map value).sum) / 2 ^ 53) := by
  induction xs generalizing f with
  | nil => simp
  | cons x xs ih =>
    rw [List.forall_mem_cons] at addends
    obtain ⟨first, rest⟩ := addends
    have tail_nonneg := sum_nonneg_of_addends rest
    rw [List.foldl_cons] at finite
    have small : value f + value x < overflow := by
      by_contra large
      have infinite := isFinite_add_of_overflow start.finite first.finite (not_lt.mp large)
      exact absurd (isFinite_of_foldl finite) (by rw [infinite]; decide)
    obtain ⟨next, part, -, byRight, -⟩ := add_close start first small
    have closeRest := ih next rest finite
    rw [List.map_cons, List.sum_cons, List.length_cons, List.foldl_cons]
    generalize (xs.map value).sum = tail at *
    have nonneg := first.nonneg
    obtain ⟨below, above⟩ := abs_le.mp part
    have most := (abs_le.mp byRight).2
    have rest : xs.length * ((value (f + x) + 2 * tail) / 2 ^ 53) ≤
        xs.length * ((value f + 2 * (value x + tail)) / 2 ^ 53) :=
      mul_le_mul_of_nonneg_left (div_le_div_of_nonneg_right (by linarith) (by positivity)) (Nat.cast_nonneg _)
    have step : (value f + value x) / 2 ^ 53 ≤ (value f + 2 * (value x + tail)) / 2 ^ 53 :=
      div_le_div_of_nonneg_right (by linarith) (by positivity)
    obtain ⟨belowRest, aboveRest⟩ := abs_le.mp closeRest
    push_cast
    rw [add_mul, one_mul, abs_le]
    constructor <;> linarith

/-- There is room for half a unit at each step. -/
theorem isFinite_foldl_of_room (start : IsAddend f) (addends : ∀ x ∈ xs, IsAddend x)
    (room : value f + (xs.map value).sum + (xs.length - 1) * lastHalf < overflow) :
    (xs.foldl (· + ·) f).isFinite = true := by
  induction xs generalizing f with
  | nil => exact start.finite
  | cons x xs ih =>
    rw [List.forall_mem_cons] at addends
    obtain ⟨first, rest⟩ := addends
    have tail_nonneg := sum_nonneg_of_addends rest
    have steps : (0 : ℚ) ≤ xs.length * lastHalf := mul_nonneg (Nat.cast_nonneg _) lastHalf_pos.le
    rw [List.map_cons, List.sum_cons, List.length_cons] at room
    push_cast at room
    obtain ⟨next, -, -, -, carried⟩ := add_close start first (by linarith)
    have carried := (abs_le.mp carried).2
    exact ih next rest (by linarith)

theorem isAddend_zero : IsAddend 0 :=
  ⟨by decide +kernel, value_zero.ge⟩

/-- A sum in doubles. -/
theorem floatTotal_close (addends : ∀ x ∈ xs, IsAddend x) (finite : (floatTotal xs).isFinite = true) :
    |value (floatTotal xs) - (xs.map value).sum| ≤ xs.length * (2 * (xs.map value).sum / 2 ^ 53) := by
  have close := foldl_add_close isAddend_zero addends finite
  rwa [value_zero, zero_add, zero_add] at close

/-- The first of the doubles is added without a loss. -/
theorem isFinite_floatTotal (addends : ∀ x ∈ xs, IsAddend x)
    (room : (xs.map value).sum + (xs.length - 2) * lastHalf < overflow) : (floatTotal xs).isFinite = true := by
  cases xs with
  | nil => exact isAddend_zero.finite
  | cons x xs =>
    rw [List.forall_mem_cons] at addends
    obtain ⟨addend, rest⟩ := addends
    have fits : value 0 + value x < overflow := by
      rw [value_zero, zero_add]
      exact value_lt_overflow addend.finite
    obtain ⟨first, -, byLeft, -⟩ := add_close isAddend_zero addend fits
    rw [value_zero, zero_add, abs_nonpos_iff, sub_eq_zero] at byLeft
    rw [List.map_cons, List.sum_cons, List.length_cons] at room
    push_cast at room
    rw [floatTotal, List.foldl_cons]
    exact isFinite_foldl_of_room first rest (by rw [byLeft]; linarith)

end Doubles

/-! ## Sums -/

section Sums

variable {xs : List Float} {total d : Decimal}

namespace SumErrorsLemmas

theorem sum_le_length_mul (addends : ∀ x ∈ xs, IsAddend x) : (xs.map value).sum ≤ xs.length * (xs.map value).sum := by
  cases xs with
  | nil => simp
  | cons x xs =>
    refine le_mul_of_one_le_left (sum_nonneg_of_addends addends) ?_
    rw [List.length_cons]
    push_cast
    linarith [Nat.cast_nonneg (α := ℚ) xs.length]

theorem toFloat_decimalTotal_close (addends : ∀ x ∈ xs, IsAddend x) (added : decimalTotal .zero xs = some d) :
    |value d.toFloat - (xs.map value).sum| ≤ xs.length * ((xs.map value).sum / 10 ^ 13 + 945 / 10 ^ 31) := by
  obtain ⟨valid, most, close⟩ := decimalTotal_close valid_zero addends added
  obtain ⟨-, closeDouble⟩ := toFloat_close valid
  have nonneg := sum_nonneg_of_addends addends
  have multiple := sum_le_length_mul addends
  rw [size_zero, zero_add, zero_add] at close
  rw [size_zero, zero_add] at most
  generalize (xs.map value).sum = exact at *
  calc |value d.toFloat - exact| ≤ |value d.toFloat - d.size| + |d.size - exact| := abs_sub_le _ _ _
    _ ≤ d.size * (30 / 2 ^ 53) + (exact / 10 ^ 14 + xs.length * (945 / 10 ^ 31 + 25 * exact / 10 ^ 28)) :=
      add_le_add closeDouble close
    _ ≤ 25 * exact * (30 / 2 ^ 53) + (exact / 10 ^ 14 + xs.length * (945 / 10 ^ 31 + 25 * exact / 10 ^ 28)) := by
      gcongr
    _ ≤ xs.length * (exact / 10 ^ 13 + 945 / 10 ^ 31) := by linarith

theorem sum_close_of_finite (addends : ∀ x ∈ xs, IsAddend x) (finite : (sum xs).isFinite = true) :
    |value (sum xs) - (xs.map value).sum| ≤ xs.length * ((xs.map value).sum / 10 ^ 13 + 945 / 10 ^ 31) := by
  rw [sum] at finite ⊢
  cases added : decimalTotal .zero xs with
  | some d => exact toFloat_decimalTotal_close addends added
  | none =>
    rw [added] at finite
    refine (floatTotal_close addends finite).trans (mul_le_mul_of_nonneg_left ?_ (Nat.cast_nonneg _))
    have nonneg := sum_nonneg_of_addends addends
    linarith

theorem isFinite_sum (addends : ∀ x ∈ xs, IsAddend x)
    (room : (xs.map value).sum + (xs.length - 2) * lastHalf < overflow) : (sum xs).isFinite = true := by
  rw [sum]
  cases added : decimalTotal .zero xs with
  | some d => exact (toFloat_close (decimalTotal_close valid_zero addends added).1).1
  | none => exact isFinite_floatTotal addends room

/-- Of doubles that become zero there is a total, and it is zero. -/
theorem decimalTotal_of_tiny (none : total.units = 0) (addends : ∀ x ∈ xs, IsAddend x)
    (tiny : ∀ x ∈ xs, value x ≤ 9 / 10 ^ 29) : ∃ d, decimalTotal total xs = some d ∧ d.units = 0 := by
  induction xs generalizing total with
  | nil => exact ⟨total, rfl, none⟩
  | cons x xs ih =>
    rw [List.forall_mem_cons] at addends tiny
    obtain ⟨first, converted, units⟩ := ofFloat?_of_tiny addends.1 tiny.1
    obtain ⟨d, rest, same⟩ := ih units addends.2 tiny.2
    refine ⟨d, ?_, same⟩
    rw [decimalTotal, converted]
    show (total.add? first >>= _) = _
    rw [add?, if_pos none]
    exact rest

theorem value_sum_of_tiny (addends : ∀ x ∈ xs, IsAddend x) (tiny : ∀ x ∈ xs, value x ≤ 9 / 10 ^ 29) :
    value (sum xs) = 0 := by
  obtain ⟨d, added, none⟩ := @decimalTotal_of_tiny _ .zero rfl addends tiny
  obtain ⟨-, close⟩ := toFloat_close (decimalTotal_close valid_zero addends added).1
  rw [size_eq_zero none, zero_mul, sub_zero, abs_nonpos_iff] at close
  rw [sum, added]
  exact close

end SumErrorsLemmas

/-- A finite sum of doubles that are not below zero is off by a small part of itself and a unit of the largest
scale for each of them. Where the sum is not small, the part alone is enough. The sum is finite if there is room
for half a unit of the last place at each step in doubles. But nothing is left of addends that are too small for
the largest scale. -/
theorem sum_close (addends : ∀ x ∈ xs, IsAddend x) :
    ((sum xs).isFinite = true →
      |value (sum xs) - (xs.map value).sum| ≤ xs.length * ((xs.map value).sum / 10 ^ 13 + 1 / 10 ^ 28) ∧
      (1 / 10 ^ 19 ≤ (xs.map value).sum →
        |value (sum xs) - (xs.map value).sum| ≤ xs.length * (1 / 10 ^ 9) * (xs.map value).sum)) ∧
    ((xs.map value).sum + (xs.length - 2) * lastHalf < overflow → (sum xs).isFinite = true) ∧
    ((∀ x ∈ xs, value x ≤ 9 / 10 ^ 29) → value (sum xs) = 0) := by
  refine ⟨fun finite => ?_, isFinite_sum addends, value_sum_of_tiny addends⟩
  have close := sum_close_of_finite addends finite
  refine ⟨close.trans ?_, fun large => close.trans ?_⟩
  · exact mul_le_mul_of_nonneg_left (by linarith) (Nat.cast_nonneg _)
  · rw [mul_assoc]
    exact mul_le_mul_of_nonneg_left (by linarith) (Nat.cast_nonneg _)

/-- The double next to `1 / 10 ^ 30`. -/
def tinyAmount : Float := .ofBits 0x39B4484BFEEBC2A0

/-- Alone the amount is lost, and with it all of the sum. With one it makes no difference. -/
theorem tiny_amount_is_lost :
    IsAddend tinyAmount ∧ 0 < value tinyAmount ∧ value (sum [tinyAmount]) = 0 ∧
      |value (sum [1, tinyAmount]) - (1 + value tinyAmount)| ≤ 2 * (1 / 10 ^ 9) * (1 + value tinyAmount) := by
  have units : significand tinyAmount = 5708990770823840 := by decide +kernel
  have power : exponent tinyAmount = -152 := by decide +kernel
  have unsigned : isNegative tinyAmount = false := by decide +kernel
  have same : value tinyAmount = 5708990770823840 * 2 ^ (-152 : ℤ) := by
    rw [value_of_unsigned unsigned, magnitude, units, power]
    norm_num
  have addend : IsAddend tinyAmount := ⟨by decide +kernel, by rw [same]; positivity⟩
  have tiny : value tinyAmount ≤ 9 / 10 ^ 29 := by rw [same]; norm_num
  have positive : 0 < value tinyAmount := by rw [same]; positivity
  refine ⟨addend, positive, ?_, ?_⟩
  · exact (sum_close (List.forall_mem_singleton.mpr addend)).2.2 (List.forall_mem_singleton.mpr tiny)
  · obtain ⟨finite, -, one⟩ := @ofNat_exact 1 (by decide)
    replace one : value 1 = 1 := one.trans Nat.cast_one
    have both : ∀ x ∈ [1, tinyAmount], IsAddend x :=
      List.forall_mem_cons.mpr ⟨⟨finite, by rw [one]; norm_num⟩, List.forall_mem_singleton.mpr addend⟩
    have total : ([1, tinyAmount].map value).sum = 1 + value tinyAmount := by
      rw [List.map_cons, List.map_singleton, List.sum_cons, List.sum_singleton, one]
    obtain ⟨close, isFinite, -⟩ := sum_close both
    have two : ((([1, tinyAmount] : List Float).length : ℕ) : ℚ) = 2 := by norm_num
    have small : 1 + value tinyAmount < overflow := @lt_overflow _ 1 (by linarith) (by decide)
    rw [total, two] at close isFinite
    rw [sub_self, zero_mul, add_zero] at isFinite
    exact (close (isFinite small)).2 (by linarith)

end Sums

end RecordFormula.Number
