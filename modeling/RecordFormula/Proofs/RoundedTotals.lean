import RecordFormula.Proofs.Conversions
import RecordFormula.Proofs.DecimalSums
import RecordFormula.Proofs.Rounding

/-!
# Totals of decimals that are rounded

A sum of decimals that does not fit at the scale of its sides is rounded at a smaller one. The scale is lowered by
the fewest digits, so that the sum keeps its first 28, and a side that is rounded away at it was small next to the
other. A long total is therefore within a small part of itself, however many such steps there are.

Results:
1. `exists_fit`: how far a scale is lowered.
2. `add?_close`: what a sum of two decimals is off.
3. `decimalTotal_close`: what a total of doubles is off.
-/

namespace RecordFormula.Number

attribute [local instance] natPow

open Decimal DoublesLemmas DecimalSumsLemmas ConversionsLemmas

variable {a b d total : Decimal}

namespace RoundedTotalsLemmas

/-! ## Rounding -/

theorem roundHalfEven_close (n : ℕ) {d : ℕ} (positive : 0 < d) : |(roundHalfEven n d : ℚ) - n / d| ≤ 1 / 2 := by
  have divisor : (0 : ℚ) < d := by exact_mod_cast positive
  have less : ((n % d : ℕ) : ℚ) / d ≤ 1 := by
    rw [div_le_one divisor]
    exact_mod_cast (Nat.mod_lt n positive).le
  rw [div_eq_add_mod n positive, roundHalfEven]
  by_cases up : d < 2 * (n % d) ∨ 2 * (n % d) = d ∧ n / d % 2 = 1
  · have half : 1 / 2 ≤ ((n % d : ℕ) : ℚ) / d := by
      rw [div_le_div_iff₀ two_pos divisor]
      have : d ≤ 2 * (n % d) := by omega
      have : (d : ℚ) ≤ 2 * (n % d : ℕ) := by exact_mod_cast this
      linarith
    simp only [if_pos up]
    push_cast
    rw [abs_le]
    constructor <;> linarith
  · have half : ((n % d : ℕ) : ℚ) / d ≤ 1 / 2 := by
      rw [div_le_div_iff₀ divisor two_pos]
      have : 2 * (n % d) ≤ d := by omega
      have : (2 : ℚ) * (n % d : ℕ) ≤ d := by exact_mod_cast this
      linarith
    have nonneg : (0 : ℚ) ≤ ((n % d : ℕ) : ℚ) / d := by positivity
    simp only [if_neg up]
    rw [abs_le]
    constructor <;> linarith

theorem exists_of_findSome?_range {α : Type} {f : ℕ → Option α} {n : ℕ} {found : α}
    (first : (List.range n).findSome? f = some found) : ∃ k < n, f k = some found ∧ ∀ j < k, f j = none := by
  induction n with
  | zero => exact absurd first (by simp)
  | succ n ih =>
    rw [List.range_succ, List.findSome?_append, Option.or_eq_some_iff] at first
    rcases first with first | ⟨none, last⟩
    · obtain ⟨k, less, found, none⟩ := ih first
      exact ⟨k, by omega, found, none⟩
    · refine ⟨n, by omega, by simpa using last, fun j less => ?_⟩
      exact List.findSome?_eq_none_iff.mp none j (List.mem_range.mpr less)

/-- The scale is lowered by the fewest digits that make the units fit. -/
theorem exists_fit {negative : Bool} {units scale : ℕ} (found : fit negative units scale = some d) :
    ∃ dropped ≤ scale, d = ⟨negative, roundHalfEven units (10 ^ dropped), scale - dropped⟩ ∧ d.units < bound ∧
      ∀ fewer < dropped, bound ≤ roundHalfEven units (10 ^ fewer) := by
  obtain ⟨dropped, le, isFound, none⟩ := exists_of_findSome?_range found
  obtain ⟨fits, same⟩ := Option.ite_none_right_eq_some.mp isFound
  obtain rfl := Option.some.inj same
  refine ⟨dropped, by omega, rfl, fits, fun fewer less => ?_⟩
  by_contra fits
  exact absurd (none fewer less) (by simp [lt_of_not_ge fits])

/-! ## Two decimals -/

theorem size_eq_units (d : Decimal) {scale : ℕ} (le : d.scale ≤ scale) :
    d.size = (d.units * 10 ^ (scale - d.scale) : ℕ) / 10 ^ scale := by
  obtain ⟨more, rfl⟩ := Nat.exists_eq_add_of_le le
  rw [Decimal.size, Nat.add_sub_cancel_left, pow_add]
  push_cast
  field_simp

theorem add?_of_units_ne_zero (valid : a.Valid) (valid' : b.Valid) (some : a.units ≠ 0) (some' : b.units ≠ 0) :
    a.add? b = fit false (a.units * 10 ^ (max a.scale b.scale - a.scale) +
      b.units * 10 ^ (max a.scale b.scale - b.scale)) (max a.scale b.scale) := by
  have unsigned : a.negative = false := Bool.eq_false_iff.mpr fun signed => some (valid.unsigned signed)
  have unsigned' : b.negative = false := Bool.eq_false_iff.mpr fun signed => some' (valid'.unsigned signed)
  have total : a.unitsAt (max a.scale b.scale) + b.unitsAt (max a.scale b.scale) =
      (a.units * 10 ^ (max a.scale b.scale - a.scale) + b.units * 10 ^ (max a.scale b.scale - b.scale) : ℕ) := by
    rw [unitsAt, unitsAt, unsigned, unsigned', if_neg Bool.false_ne_true, if_neg Bool.false_ne_true, Nat.cast_add]
  rw [add?, if_neg some, if_neg some']
  simp only [total, Int.natAbs_natCast]
  rw [decide_eq_false (by omega)]

/-- A sum that is rounded has as many units of the smaller scale as fit, but for one digit. -/
theorem full_of_dropped {whole dropped : ℕ} (full : bound ≤ roundHalfEven whole (10 ^ dropped)) :
    (2 ^ 96 - 1 / 2) / 10 ≤ (whole : ℚ) / 10 ^ (dropped + 1) := by
  have near := (abs_le.mp (roundHalfEven_close whole (by positivity : 0 < 10 ^ dropped))).2
  have full : (2 : ℚ) ^ 96 ≤ roundHalfEven whole (10 ^ dropped) := by exact_mod_cast full
  rw [pow_succ (10 : ℚ), ← div_div]
  push_cast at near
  gcongr
  linarith

theorem size_mul_le_of_coarse {scale : ℕ} (valid : a.Valid) (coarse : scale < a.scale) :
    a.size * 10 ^ scale ≤ (2 ^ 96 - 1) / 10 := by
  obtain ⟨more, split⟩ := Nat.exists_eq_add_of_lt coarse
  have fits : (a.units : ℚ) ≤ 2 ^ 96 - 1 := by
    have := valid.fits
    have : a.units + 1 ≤ 2 ^ 96 := this
    have : (a.units : ℚ) + 1 ≤ 2 ^ 96 := by exact_mod_cast this
    linarith
  have tens : (10 : ℚ) ≤ 10 ^ (more + 1) := le_self_pow₀ (by norm_num) (by omega)
  calc a.size * 10 ^ scale = a.units / 10 ^ (more + 1) := by
        rw [Decimal.size, split, add_assoc, pow_add]
        field_simp
    _ ≤ a.units / 10 := by gcongr
    _ ≤ (2 ^ 96 - 1) / 10 := by gcongr

/-- A number of units that is nearest to the sum of a whole number and another is not off by more than the other. -/
theorem abs_sub_le_of_fine {scale n : ℕ} {y rest : ℚ} (fine : a.scale ≤ scale)
    (sum : y = a.size * 10 ^ scale + rest) (near : |(n : ℚ) - y| ≤ 1 / 2) : |(n : ℚ) - y| ≤ |rest| := by
  have power : (0 : ℚ) < 10 ^ scale := by positivity
  have left : a.size * 10 ^ scale = ((a.units * 10 ^ (scale - a.scale) : ℕ) : ℤ) := by
    rw [size_eq_units a fine, div_mul_cancel₀ _ power.ne', Int.cast_natCast]
  have nearest := @abs_sub_le_of_int n (a.units * 10 ^ (scale - a.scale) : ℕ) y 1 one_pos
    (by rw [mul_one, Int.cast_natCast]; exact near)
  rwa [mul_one, mul_one, ← left, Int.cast_natCast, sum, sub_add_cancel_left, abs_neg, ← sum] at nearest

end RoundedTotalsLemmas

open RoundedTotalsLemmas

/-- What the sum of two decimals is like. It is within a small part of itself, and does not exceed the left side by
much more than the right side. -/
structure Decimal.IsSum (a b c : Decimal) : Prop where
  valid : c.Valid
  close : |c.size - (a.size + b.size)| ≤ (a.size + b.size) / 10 ^ 28
  le : c.size ≤ a.size + 11 * b.size

namespace RoundedTotalsLemmas

variable {c : Decimal}

theorem isSum_of_size_eq (valid : c.Valid) (same : c.size = a.size + b.size) : a.IsSum b c := by
  have nonneg := size_nonneg a
  have nonneg' := size_nonneg b
  refine ⟨valid, ?_, by linarith⟩
  rw [same, sub_self, abs_zero]
  positivity

/-- A sum is rounded to units of a smaller scale only if there are many of them. -/
theorem isSum_of_rounded {y : ℚ} (valid : a.Valid) (valid' : c.Valid) (sum : a.size + b.size = y / 10 ^ c.scale)
    (near : |(c.units : ℚ) - y| ≤ 1 / 2) (full : (2 ^ 96 - 1 / 2) / 10 ≤ y) : a.IsSum b c := by
  have power : (0 : ℚ) < 10 ^ c.scale := by positivity
  have off : c.size - (a.size + b.size) = (c.units - y) / 10 ^ c.scale := by rw [Decimal.size, sum, sub_div]
  refine ⟨valid', ?_, ?_⟩
  · rw [off, sum, abs_div, abs_of_pos power, div_right_comm]
    gcongr
    linarith
  · have nonneg : 0 ≤ b.size * 10 ^ c.scale := mul_nonneg (size_nonneg b) power.le
    have split : y = a.size * 10 ^ c.scale + b.size * 10 ^ c.scale := by
      rw [← add_mul, sum, div_mul_cancel₀ _ power.ne']
    have most : (c.units : ℚ) - y ≤ 10 * (b.size * 10 ^ c.scale) := by
      rcases le_or_gt a.scale c.scale with fine | coarse
      · have nearest := le_of_abs_le (abs_sub_le_of_fine fine split near)
        rw [abs_of_nonneg nonneg] at nearest
        linarith
      · -- The left side alone would not have been rounded, so the right side is not small.
        have left := size_mul_le_of_coarse valid coarse
        have := (abs_le.mp near).2
        linarith
    have : (c.units - y) / 10 ^ c.scale ≤ 10 * b.size := by
      rw [div_le_iff₀ power]
      linarith
    linarith

/-- Units of the larger scale are fitted to the largest scale at which there is room for them. -/
theorem isSum_of_fit {whole scale : ℕ} (valid : a.Valid) (few : scale ≤ 28)
    (sum : a.size + b.size = whole / 10 ^ scale) (fitted : fit false whole scale = some c) : a.IsSum b c := by
  obtain ⟨dropped, le, same, fits, full⟩ := exists_fit fitted
  have units : c.units = roundHalfEven whole (10 ^ dropped) := by rw [same]
  have places : c.scale = scale - dropped := by rw [same]
  have valid' : c.Valid := ⟨fits, by omega, fun signed => absurd signed (by rw [same]; exact Bool.false_ne_true)⟩
  cases dropped with
  | zero =>
    refine isSum_of_size_eq valid' ?_
    rw [sum, same, pow_zero, roundHalfEven_one]
    rfl
  | succ dropped =>
    refine isSum_of_rounded valid valid' ?_ ?_ (full_of_dropped (full dropped (by omega)))
    · rw [sum, places, div_div, ← pow_add, Nat.add_sub_cancel' le]
    · have near := roundHalfEven_close whole (by positivity : 0 < 10 ^ (dropped + 1))
      rw [← units] at near
      push_cast at near
      exact near

end RoundedTotalsLemmas

/-- A sum of two decimals, if there is one, is near to what the decimals are together. -/
theorem Decimal.add?_close {c : Decimal} (valid : a.Valid) (valid' : b.Valid) (added : a.add? b = some c) :
    a.IsSum b c := by
  by_cases none : a.units = 0
  · rw [add?, if_pos none] at added
    obtain rfl := Option.some.inj added
    exact isSum_of_size_eq valid' (by rw [size_eq_zero none, zero_add])
  by_cases none' : b.units = 0
  · rw [add?, if_neg none, if_pos none'] at added
    obtain rfl := Option.some.inj added
    exact isSum_of_size_eq valid (by rw [size_eq_zero none', add_zero])
  rw [add?_of_units_ne_zero valid valid' none none'] at added
  refine isSum_of_fit valid (max_le valid.scale_le valid'.scale_le) ?_ added
  rw [size_eq_units a (le_max_left _ _), size_eq_units b (le_max_right _ _), ← add_div, Nat.cast_add]

/-! ## Totals -/

theorem sum_nonneg_of_addends {xs : List Float} (addends : ∀ x ∈ xs, IsAddend x) : 0 ≤ (xs.map value).sum :=
  List.sum_nonneg (List.forall_mem_map.mpr fun x mem => (addends x mem).nonneg)

/-- A total of doubles that are not below zero, added to a running total. -/
theorem decimalTotal_close {xs : List Float} (valid : total.Valid) (addends : ∀ x ∈ xs, IsAddend x)
    (added : decimalTotal total xs = some d) :
    d.Valid ∧ d.size ≤ total.size + 25 * (xs.map value).sum ∧
      |d.size - (total.size + (xs.map value).sum)| ≤ (xs.map value).sum / 10 ^ 14 +
        xs.length * (945 / 10 ^ 31 + (total.size + 25 * (xs.map value).sum) / 10 ^ 28) := by
  induction xs generalizing total with
  | nil =>
    obtain rfl := Option.some.inj added
    exact ⟨valid, by simp, by simp⟩
  | cons x xs ih =>
    rw [List.forall_mem_cons] at addends
    obtain ⟨addend, rest⟩ := addends
    have nonneg := addend.nonneg
    obtain ⟨first, converted, added⟩ := Option.bind_eq_some_iff.mp added
    obtain ⟨next, summed, added⟩ := Option.bind_eq_some_iff.mp added
    obtain ⟨valid', close, le⟩ := ofFloat?_close addend converted
    obtain ⟨valid, closeSum, leSum⟩ := add?_close valid valid' summed
    obtain ⟨valid, most, closeRest⟩ := ih valid rest added
    have tail_nonneg := sum_nonneg_of_addends rest
    rw [List.map_cons, List.sum_cons, List.length_cons]
    generalize (xs.map value).sum = tail at *
    refine ⟨valid, by linarith, ?_⟩
    have part : 945 / 10 ^ 31 + (next.size + 25 * tail) / 10 ^ 28 ≤
        945 / 10 ^ 31 + (total.size + 25 * (value x + tail)) / 10 ^ 28 := by
      gcongr 945 / 10 ^ 31 + ?_ / 10 ^ 28
      linarith
    have rest := mul_le_mul_of_nonneg_left part (Nat.cast_nonneg (α := ℚ) xs.length)
    have step : (total.size + first.size) / 10 ^ 28 ≤ (total.size + 25 * (value x + tail)) / 10 ^ 28 := by
      gcongr
      linarith
    obtain ⟨below, above⟩ := abs_le.mp close
    obtain ⟨belowSum, aboveSum⟩ := abs_le.mp closeSum
    obtain ⟨belowRest, aboveRest⟩ := abs_le.mp closeRest
    push_cast
    rw [add_mul, one_mul, abs_le]
    constructor <;> linarith

end RecordFormula.Number
