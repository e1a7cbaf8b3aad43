import RecordFormula.Number.Sum
import Mathlib

/-!
# Sums of decimals

Decimals are added at the larger of their scales, where the sum has no more digits behind the point than one
of them has. So nothing is lost as long as the units fit.

Results:
1. `add?_of_units`: decimals of so many digits have an exact sum of no more digits.
2. `decimalTotal_of_units`: so has a list of doubles that become such decimals.
-/

namespace RecordFormula.Number

attribute [local instance] natPow

open Decimal

/-- A decimal with at most so many digits behind the point, as a number of units of the last of these. -/
structure Decimal.HasUnits (d : Decimal) (digits : ℕ) (k : ℤ) : Prop where
  short : d.scale ≤ digits
  same : d.unitsAt digits = k

namespace DecimalSumsLemmas

theorem roundHalfEven_one (n : ℕ) : roundHalfEven n 1 = n := by
  simp [roundHalfEven, Nat.mod_one]

theorem fit_eq {negative : Bool} {units scale : ℕ} (fits : units < bound) :
    fit negative units scale = some { negative, units, scale } := by
  have first : roundHalfEven units (10 ^ 0) = units := roundHalfEven_one units
  rw [fit, List.range_succ_eq_map, List.findSome?_cons, first, if_pos fits]
  rfl

theorem unitsAt_eq_zero {d : Decimal} {scale : ℕ} (none : d.units = 0) : d.unitsAt scale = 0 := by
  simp [unitsAt, none]

theorem unitsAt_add {d : Decimal} {scale more : ℕ} (le : d.scale ≤ scale) :
    d.unitsAt (scale + more) = d.unitsAt scale * 10 ^ more := by
  have power : d.units * 10 ^ (scale + more - d.scale) = d.units * 10 ^ (scale - d.scale) * 10 ^ more := by
    rw [Nat.sub_add_comm le, pow_add, mul_assoc]
  rw [unitsAt, unitsAt, power]
  split
  · push_cast
    ring
  · push_cast
    ring

theorem unitsAt_self (n : ℤ) (scale : ℕ) :
    ({ negative := decide (n < 0), units := n.natAbs, scale } : Decimal).unitsAt scale = n := by
  unfold unitsAt
  simp only [Nat.sub_self, pow_zero, Nat.mul_one]
  by_cases negative : n < 0
  · rw [decide_eq_true negative, if_pos rfl]
    omega
  · rw [decide_eq_false negative, if_neg (by decide)]
    omega

theorem natAbs_sum_le (ks : List ℤ) : ks.sum.natAbs ≤ (ks.map Int.natAbs).sum := by
  induction ks with
  | nil => rfl
  | cons k ks ih =>
    rw [List.sum_cons, List.map_cons, List.sum_cons]
    exact (Int.natAbs_add_le _ _).trans (by omega)

end DecimalSumsLemmas

open DecimalSumsLemmas

variable {digits : ℕ} {j k : ℤ}

/-- Decimals are added without loss if the sum fits at the digits that they have. -/
theorem Decimal.add?_of_units {a b : Decimal} (left : a.HasUnits digits j) (right : b.HasUnits digits k)
    (fits : (j + k).natAbs < bound) : ∃ total, a.add? b = some total ∧ total.HasUnits digits (j + k) := by
  obtain ⟨short, same⟩ := left
  obtain ⟨short', same'⟩ := right
  unfold add?
  split
  · rename_i none
    rw [unitsAt_eq_zero none] at same
    exact ⟨b, rfl, short', by rw [same', ← same, zero_add]⟩
  · split
    · rename_i none
      rw [unitsAt_eq_zero none] at same'
      exact ⟨a, rfl, short, by rw [same, ← same', add_zero]⟩
    · obtain ⟨scale, scale_eq⟩ : ∃ scale, scale = max a.scale b.scale := ⟨_, rfl⟩
      obtain ⟨more, rfl⟩ : ∃ more, digits = scale + more := Nat.exists_eq_add_of_le (by omega)
      rw [unitsAt_add (by omega)] at same same'
      have total : (a.unitsAt scale + b.unitsAt scale) * 10 ^ more = j + k := by rw [add_mul, same, same']
      simp only [← scale_eq]
      generalize a.unitsAt scale + b.unitsAt scale = sum at total ⊢
      have size : sum.natAbs * 10 ^ more = (j + k).natAbs := by
        rw [← total, Int.natAbs_mul, Int.natAbs_pow]
        rfl
      have fits : sum.natAbs < bound := by
        have : sum.natAbs ≤ sum.natAbs * 10 ^ more := Nat.le_mul_of_pos_right _ (by positivity)
        omega
      exact ⟨_, fit_eq fits, Nat.le_add_right _ _, by rw [unitsAt_add (le_refl _), unitsAt_self, total]⟩

/-- Doubles that become decimals of so many digits have an exact total of no more digits. -/
theorem decimalTotal_of_units {total : Decimal} {xs : List Float} {ks : List ℤ}
    (converted : List.Forall₂ (fun x k => ∃ d, ofFloat? x = some d ∧ d.HasUnits digits k) xs ks)
    (start : total.HasUnits digits k) (fits : k.natAbs + (ks.map Int.natAbs).sum < bound) :
    ∃ d, decimalTotal total xs = some d ∧ d.HasUnits digits (k + ks.sum) := by
  induction converted generalizing total k with
  | nil => exact ⟨total, rfl, by simpa using start⟩
  | @cons x j xs ks first _ ih =>
    rw [List.map_cons, List.sum_cons] at fits
    obtain ⟨d, converted, units⟩ := first
    obtain ⟨next, added, units⟩ := add?_of_units start units (by omega)
    obtain ⟨final, rest, units⟩ := ih units (by omega)
    refine ⟨final, ?_, by rwa [List.sum_cons, ← add_assoc]⟩
    rw [decimalTotal, converted]
    show (total.add? d >>= _) = _
    rw [added]
    exact rest

end RecordFormula.Number
