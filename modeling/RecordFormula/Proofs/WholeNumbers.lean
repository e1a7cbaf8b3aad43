import RecordFormula.Proofs.NumberOrder
import RecordFormula.Proofs.Rounding

/-!
# Whole numbers in doubles

Every whole number up to `2 ^ 53` is a double, and so is each sum of two of them that is no larger. Larger
doubles are whole numbers too, but not every whole number is among them.

Results:
1. `isIntegral_iff` and `wholePart_of_isWhole`: how a whole number is told from its parts.
2. `isWhole_ofNat`: a count is itself as a double.
3. `IsWhole.add`: a sum is exact if it is not too large.
-/

namespace RecordFormula.Number

open ComparisonsLemmas DoublesLemmas

/-- A double that is a whole number. -/
structure IsWhole (x : Float) (k : ℤ) : Prop where
  finite : x.isFinite = true
  value_eq : value x = k

namespace WholeNumbersLemmas

variable {x : Float} {n : ℕ}

/-- The whole part of a double without a fraction is its magnitude. -/
theorem magnitude_of_isIntegral (integral : isIntegral x = true) : magnitude x = wholePart x := by
  unfold isIntegral at integral
  rw [Bool.and_eq_true, Bool.or_eq_true, decide_eq_true_eq, beq_iff_eq] at integral
  unfold magnitude wholePart scaleDown
  by_cases whole : 0 ≤ exponent x
  · obtain ⟨e, same⟩ := Int.eq_ofNat_of_zero_le whole
    rw [if_pos whole, same, Int.toNat_natCast, zpow_natCast]
    push_cast
    rfl
  · obtain ⟨places, same⟩ : ∃ places : ℕ, exponent x = -places := ⟨(-exponent x).toNat, by omega⟩
    have none := integral.2.resolve_left whole
    rw [same, neg_neg, Int.toNat_natCast] at none
    have split : significand x = significand x / 2 ^ places * 2 ^ places :=
      (Nat.div_mul_cancel (Nat.dvd_of_mod_eq_zero none)).symm
    rw [if_neg whole, same, neg_neg, Int.toNat_natCast, zpow_neg, zpow_natCast, ← div_eq_mul_inv,
      div_eq_iff (by positivity)]
    exact_mod_cast split

theorem isIntegral_of_magnitude (finite : x.isFinite = true) (same : magnitude x = n) : isIntegral x = true := by
  unfold isIntegral
  rw [Bool.and_eq_true, Bool.or_eq_true, decide_eq_true_eq, beq_iff_eq]
  refine ⟨finite, or_iff_not_imp_left.mpr fun fraction => ?_⟩
  obtain ⟨places, exponent_eq⟩ : ∃ places : ℕ, exponent x = -places := ⟨(-exponent x).toNat, by omega⟩
  rw [magnitude, exponent_eq, zpow_neg, zpow_natCast, ← div_eq_mul_inv, div_eq_iff (by positivity)] at same
  have split : significand x = n * 2 ^ places := by exact_mod_cast same
  rw [exponent_eq, neg_neg, Int.toNat_natCast, split]
  exact Nat.mul_mod_left _ _

end WholeNumbersLemmas

open WholeNumbersLemmas

section Whole

variable {x y : Float} {j k : ℤ}

theorem IsWhole.magnitude_eq (whole : IsWhole x k) : magnitude x = k.natAbs := by
  rw [← abs_value, whole.value_eq, Nat.cast_natAbs, Int.cast_abs]

/-- A double has no fraction if it is a whole number. -/
theorem isIntegral_iff : isIntegral x = true ↔ ∃ k, IsWhole x k := by
  constructor
  · intro integral
    have finite : x.isFinite = true := (Bool.and_eq_true_iff.mp integral).1
    have same := magnitude_of_isIntegral integral
    refine ⟨if isNegative x then -wholePart x else wholePart x, finite, ?_⟩
    rw [value, same]
    split <;> push_cast <;> rfl
  · rintro ⟨k, whole⟩
    exact isIntegral_of_magnitude whole.finite whole.magnitude_eq

/-- The whole part of a whole number is all of it. -/
theorem wholePart_of_isWhole (whole : IsWhole x k) : wholePart x = k.natAbs := by
  have same := magnitude_of_isIntegral (isIntegral_iff.mpr ⟨k, whole⟩)
  rw [whole.magnitude_eq] at same
  exact_mod_cast same.symm

/-- A whole number of up to 53 bits is a double, and the next one is too. -/
theorem isWhole_ofNat {n : ℕ} (few : n ≤ 2 ^ 53) : IsWhole (Float.ofNat n) n := by
  rcases Nat.lt_or_eq_of_le few with less | rfl
  · obtain ⟨finite, -, same⟩ := ofNat_exact less
    exact ⟨finite, by rw [same, Int.cast_natCast]⟩
  · have units : significand (Float.ofNat (2 ^ 53)) = 2 ^ 52 := by decide +kernel
    have power : exponent (Float.ofNat (2 ^ 53)) = 1 := by decide +kernel
    have unsigned : isNegative (Float.ofNat (2 ^ 53)) = false := by decide +kernel
    refine ⟨by decide +kernel, ?_⟩
    rw [value_of_unsigned unsigned, magnitude, units, power]
    norm_num

theorem beq_of_isWhole (left : IsWhole x k) (right : IsWhole y k) : (x == y) = true := by
  rw [beq_eq_decide left.finite right.finite, left.value_eq, right.value_eq, decide_eq_true rfl]

theorem le_iff_of_isWhole (left : IsWhole x j) (right : IsWhole y k) : x ≤ y ↔ j ≤ k := by
  rw [le_iff, place_of_finite left.finite, place_of_finite right.finite, WithBot.coe_le_coe, WithTop.coe_le_coe,
    left.value_eq, right.value_eq, Int.cast_le]
  exact ⟨fun le => le.2.2, fun le =>
    ⟨not_isNaN_of_isFinite left.finite, not_isNaN_of_isFinite right.finite, le⟩⟩

theorem IsWhole.neg (whole : IsWhole x k) : IsWhole (-x) (-k) :=
  ⟨(parts_of_neg whole.finite).1, by rw [value_neg whole.finite, whole.value_eq, Int.cast_neg]⟩

/-- The sum of two whole numbers is exact if it is not too large. -/
theorem IsWhole.add (left : IsWhole x j) (right : IsWhole y k) (few : (j + k).natAbs ≤ 2 ^ 53) :
    IsWhole (x + y) (j + k) := by
  have total : value x + value y = (j + k : ℤ) := by rw [left.value_eq, right.value_eq, Int.cast_add]
  have small : |value x + value y| < overflow := by
    refine @lt_overflow _ 54 ?_ (by decide)
    calc |value x + value y| = ((j + k).natAbs : ℚ) := by rw [total, Nat.cast_natAbs, Int.cast_abs]
      _ ≤ 2 ^ 53 := by exact_mod_cast few
      _ < 2 ^ 54 := by norm_num
  have rounds := (rounds_add left.finite right.finite small).1
  rw [total] at rounds
  exact ⟨rounds.finite, rounds.exact_intCast few⟩

end Whole

end RecordFormula.Number
