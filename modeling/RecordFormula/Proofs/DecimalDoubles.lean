import RecordFormula.Proofs.MoneySums
import RecordFormula.Proofs.RoundedTotals

/-!
# What decimals become as doubles

On its way back to a double a decimal is rounded several times. Each rounding changes a number by a part of
`1 / 2 ^ 53`, so that roundings can be counted, and those of the parts of a calculation are added. Rounding to a
whole number in between doubles what there is, since the units of the decimal are a whole number.

Results:
1. `Approximates.add`, `Approximates.mul`, `Approximates.div`: the roundings of a result.
2. `approximates_magnitudeToFloat`: the roundings of a decimal.
3. `toFloat_close`: how far the double is from the decimal.
-/

namespace RecordFormula.Number

attribute [local instance] natPow

open Decimal DoublesLemmas RecordFormula.Number.MoneySumsLemmas

/-! ## Counting roundings -/

/-- A finite double without a sign that is a number but for some roundings. -/
structure Approximates (x : Float) (q : ℚ) (roundings : ℕ) : Prop where
  finite : x.isFinite = true
  unsigned : isNegative x = false
  close : |value x - q| ≤ q * (roundings / 2 ^ 53)

namespace Approximates

variable {x y : Float} {p q r : ℚ} {k l : ℕ}

theorem nonneg (approximates : Approximates x q k) : 0 ≤ value x := by
  rw [value_of_unsigned approximates.unsigned]
  exact magnitude_nonneg x

theorem mono (approximates : Approximates x q k) (nonneg : 0 ≤ q) (le : k ≤ l) : Approximates x q l := by
  refine ⟨approximates.finite, approximates.unsigned, approximates.close.trans ?_⟩
  gcongr

/-- Numbers that are neither too large nor too small for two of them to be multiplied and divided. -/
def Moderate (q : ℚ) : Prop := 1 / 2 ^ 200 ≤ q ∧ q ≤ 2 ^ 200

theorem Moderate.pos (moderate : Moderate q) : 0 < q := lt_of_lt_of_le (by norm_num) moderate.1

theorem part_le (few : k ≤ 100) : (k : ℚ) / 2 ^ 53 ≤ 1 / 2 ^ 46 := by
  have few : (k : ℚ) ≤ 100 := by exact_mod_cast few
  calc (k : ℚ) / 2 ^ 53 ≤ 100 / 2 ^ 53 := by gcongr
    _ ≤ 1 / 2 ^ 46 := by norm_num

theorem close_le (moderate : Moderate q) (few : k ≤ 100) (near : |r - q| ≤ q * (k / 2 ^ 53)) :
    q / 2 ≤ r ∧ r ≤ 2 * q := by
  have positive := moderate.pos
  have small : q * (k / 2 ^ 53) ≤ q * (1 / 2 ^ 46) := by
    exact mul_le_mul_of_nonneg_left (part_le few) positive.le
  obtain ⟨below, above⟩ := abs_le.mp near
  constructor <;> linarith

theorem lt_overflow_of_close (moderate : Moderate q) (few : k ≤ 100) (near : |r - q| ≤ q * (k / 2 ^ 53)) :
    r < overflow := by
  have most := (close_le moderate few near).2
  have := moderate.2
  exact @lt_overflow _ 202 (by linarith) (by decide)

theorem of_roundsTo (rounds : RoundsTo x r) (moderate : Moderate q) (few : k ≤ 100)
    (near : |r - q| ≤ q * (k / 2 ^ 53)) : Approximates x q (k + 2) := by
  obtain ⟨least, most⟩ := close_le moderate few near
  have normal : (2 : ℚ) ^ (-1022 : ℤ) ≤ r :=
    calc (2 : ℚ) ^ (-1022 : ℤ) ≤ 2 ^ (-201 : ℤ) := zpow_le_zpow_right₀ (by norm_num) (by norm_num)
      _ = 1 / 2 ^ 200 / 2 := by norm_num
      _ ≤ q / 2 := by
        gcongr
        exact moderate.1
      _ ≤ r := least
  refine ⟨rounds.finite, rounds.unsigned, ?_⟩
  calc |value x - q| ≤ |value x - r| + |r - q| := abs_sub_le _ _ _
    _ ≤ r / 2 ^ 53 + q * (k / 2 ^ 53) := add_le_add (rounds.close normal) near
    _ ≤ 2 * q / 2 ^ 53 + q * (k / 2 ^ 53) := by gcongr
    _ = q * ((k + 2 : ℕ) / 2 ^ 53) := by
      push_cast
      ring

/-- A sum has the roundings of its sides. -/
theorem add (left : Approximates x q k) (right : Approximates y p k) (moderate : Moderate (q + p)) (few : k ≤ 100) :
    Approximates (x + y) (q + p) (k + 2) := by
  have near : |value x + value y - (q + p)| ≤ (q + p) * (k / 2 ^ 53) :=
    calc |value x + value y - (q + p)| = |value x - q + (value y - p)| := by ring_nf
      _ ≤ |value x - q| + |value y - p| := abs_add_le _ _
      _ ≤ (q + p) * (k / 2 ^ 53) := by linarith [left.close, right.close]
  exact of_roundsTo (roundsTo_add left.finite left.unsigned right.finite right.unsigned
    (lt_overflow_of_close moderate few near)) moderate few near

theorem mul_part_le (few : k ≤ 100) (few' : l ≤ 100) : (k : ℚ) / 2 ^ 53 * (l / 2 ^ 53) ≤ 1 / 2 ^ 53 := by
  have few : (k : ℚ) ≤ 100 := by exact_mod_cast few
  have part := part_le few'
  calc (k : ℚ) / 2 ^ 53 * (l / 2 ^ 53) ≤ 100 / 2 ^ 53 * (1 / 2 ^ 46) := by gcongr
    _ ≤ 1 / 2 ^ 53 := by norm_num

/-- A product has the roundings of both its sides. -/
theorem mul (left : Approximates x q k) (right : Approximates y p l) (nonneg : 0 ≤ q) (nonneg' : 0 ≤ p)
    (moderate : Moderate (q * p)) (few : k + l < 100) : Approximates (x * y) (q * p) (k + l + 3) := by
  have close := left.close
  have close' := right.close
  have near : |value x * value y - q * p| ≤ q * p * ((k + l + 1 : ℕ) / 2 ^ 53) :=
    calc |value x * value y - q * p|
        = |(value x - q) * p + q * (value y - p) + (value x - q) * (value y - p)| := by ring_nf
      _ ≤ |(value x - q) * p| + |q * (value y - p)| + |(value x - q) * (value y - p)| := abs_add_three _ _ _
      _ = |value x - q| * p + q * |value y - p| + |value x - q| * |value y - p| := by
        rw [abs_mul, abs_mul, abs_mul, abs_of_nonneg nonneg, abs_of_nonneg nonneg']
      _ ≤ q * (k / 2 ^ 53) * p + q * (p * (l / 2 ^ 53)) + q * (k / 2 ^ 53) * (p * (l / 2 ^ 53)) := by gcongr
      _ = q * p * (k / 2 ^ 53 + l / 2 ^ 53 + k / 2 ^ 53 * (l / 2 ^ 53)) := by ring
      _ ≤ q * p * (k / 2 ^ 53 + l / 2 ^ 53 + 1 / 2 ^ 53) := by
        have := @mul_part_le k l (by omega) (by omega)
        gcongr
      _ = q * p * ((k + l + 1 : ℕ) / 2 ^ 53) := by
        push_cast
        ring
  exact of_roundsTo (roundsTo_mul left.finite left.unsigned right.finite right.unsigned
    (lt_overflow_of_close moderate (by omega) near)) moderate (by omega) near

/-- So has a quotient. -/
theorem div (left : Approximates x q k) (right : Approximates y p l) (nonneg : 0 ≤ q) (positive : 0 < p)
    (moderate : Moderate (q / p)) (few : k + l < 100) : Approximates (x / y) (q / p) (k + l + 3) := by
  have close := left.close
  have close' := right.close
  have least : p * (1 - l / 2 ^ 53) ≤ value y := by
    have := (abs_le.mp close').1
    linarith
  have part := @part_le l (by omega)
  have positive' : 0 < value y := lt_of_lt_of_le (mul_pos positive (by linarith)) least
  have near : |value x / value y - q / p| ≤ q / p * ((k + l + 1 : ℕ) / 2 ^ 53) := by
    rw [div_sub_div _ _ positive'.ne' positive.ne', abs_div, abs_of_pos (mul_pos positive' positive),
      div_le_iff₀ (mul_pos positive' positive)]
    calc |value x * p - value y * q| = |(value x - q) * p - q * (value y - p)| := by ring_nf
      _ ≤ |(value x - q) * p| + |q * (value y - p)| := abs_sub _ _
      _ = |value x - q| * p + q * |value y - p| := by
        rw [abs_mul, abs_mul, abs_of_nonneg nonneg, abs_of_pos positive]
      _ ≤ q * (k / 2 ^ 53) * p + q * (p * (l / 2 ^ 53)) := by gcongr
      _ = q * p * (k / 2 ^ 53 + l / 2 ^ 53) := by ring
      _ ≤ q * p * ((k + l + 1 : ℕ) / 2 ^ 53 * (1 - l / 2 ^ 53)) := by
        have := @mul_part_le (k + l + 1) l (by omega) (by omega)
        refine mul_le_mul_of_nonneg_left ?_ (mul_nonneg nonneg positive.le)
        push_cast at this ⊢
        linarith
      _ = q / p * ((k + l + 1 : ℕ) / 2 ^ 53) * (p * (1 - l / 2 ^ 53) * p) := by
        field_simp
      _ ≤ q / p * ((k + l + 1 : ℕ) / 2 ^ 53) * (value y * p) := by gcongr
  exact of_roundsTo (roundsTo_div left.finite left.unsigned right.finite right.unsigned positive'.ne'
    (lt_overflow_of_close moderate (by omega) near)) moderate (by omega) near

end Approximates

open Approximates

namespace DecimalDoublesLemmas

variable {x y : Float} {q : ℚ} {n units scale : ℕ}

/-! ## Whole numbers and powers of ten -/

theorem moderate_natCast (some : n ≠ 0) (fits : n ≤ 2 ^ 200) : Moderate n := by
  have some : (1 : ℚ) ≤ n := by exact_mod_cast Nat.pos_of_ne_zero some
  exact ⟨le_trans (by norm_num) some, by exact_mod_cast fits⟩

theorem moderate_div {one : ℕ} (some : n ≠ 0) (fits : n ≤ 2 ^ 200) (positive : 0 < one) (few : one ≤ 10 ^ 28) :
    Moderate ((n : ℚ) / one) := by
  have units := moderate_natCast some fits
  have least : (1 : ℚ) ≤ n := by exact_mod_cast Nat.pos_of_ne_zero some
  have one_ge : (1 : ℚ) ≤ one := by exact_mod_cast positive
  have few : (one : ℚ) ≤ 10 ^ 28 := by exact_mod_cast few
  refine ⟨?_, (div_le_self units.pos.le one_ge).trans units.2⟩
  calc (1 : ℚ) / 2 ^ 200 ≤ 1 / 10 ^ 28 := by norm_num
    _ ≤ (n : ℚ) / one := by gcongr

theorem approximates_ofNat (fits : n ≤ 2 ^ 200) : Approximates (Float.ofNat n) n 2 := by
  by_cases few : n < 2 ^ 53
  · obtain ⟨finite, unsigned, same⟩ := ofNat_exact few
    refine ⟨finite, unsigned, ?_⟩
    rw [same, sub_self, abs_zero]
    positivity
  · have near : |(n : ℚ) - n| ≤ n * ((0 : ℕ) / 2 ^ 53) := by simp
    have moderate := moderate_natCast (by omega) fits
    exact of_roundsTo (roundsTo_ofNat_of_le (not_lt.mp few) (lt_overflow_of_close moderate (by decide) near)) moderate
      (by decide) near

theorem approximates_powerOfTen (few : scale < 29) :
    Approximates (powerOfTen 5 scale 10 1) (10 ^ scale : ℕ) 1 := by
  have all : ∀ scale < 29, (powerOfTen 5 scale 10 1).isFinite = true ∧
      isNegative (powerOfTen 5 scale 10 1) = false ∧ -52 ≤ exponent (powerOfTen 5 scale 10 1) ∧
      (2 ^ 53 - 1) * (10 ^ scale * 2 ^ 52) ≤ 2 ^ 53 * (significand (powerOfTen 5 scale 10 1) *
        2 ^ (exponent (powerOfTen 5 scale 10 1) + 52).toNat) ∧
      2 ^ 53 * (significand (powerOfTen 5 scale 10 1) * 2 ^ (exponent (powerOfTen 5 scale 10 1) + 52).toNat) ≤
        (2 ^ 53 + 1) * (10 ^ scale * 2 ^ 52) := by
    decide +kernel
  obtain ⟨finite, unsigned, low, least, most⟩ := all scale few
  generalize powerOfTen 5 scale 10 1 = power at *
  obtain ⟨e, e_eq⟩ : ∃ e : ℕ, exponent power = e - 52 := ⟨(exponent power + 52).toNat, by omega⟩
  have places : (exponent power + 52).toNat = e := by omega
  have same : value power = (significand power * 2 ^ e : ℕ) / 2 ^ 52 := by
    rw [value_of_unsigned unsigned, magnitude, e_eq, zpow_sub₀ two_ne_zero]
    push_cast
    rw [zpow_natCast, mul_div_assoc]
    norm_num
  rw [places] at least most
  refine ⟨finite, unsigned, ?_⟩
  generalize significand power * 2 ^ e = units at *
  generalize 10 ^ scale = one at *
  have least : ((2 : ℚ) ^ 53 - 1) * (one * 2 ^ 52) ≤ 2 ^ 53 * units := by
    have := @Nat.cast_le ℚ _ _ _ _ _ |>.mpr least
    push_cast at this
    linarith
  have most : (2 : ℚ) ^ 53 * units ≤ (2 ^ 53 + 1) * (one * 2 ^ 52) := by exact_mod_cast most
  rw [same, abs_le]
  constructor <;> linarith

/-! ## The parts of a decimal -/

/-- Rounding to a whole number at most doubles how far another whole number is. -/
theorem approximates_roundHalfUp {k : ℕ} (approximates : Approximates x n k) :
    Approximates (roundHalfUp x) n (2 * k) := by
  have nonneg := approximates.nonneg
  suffices parts : (roundHalfUp x).isFinite = true ∧ isNegative (roundHalfUp x) = false ∧
      |value (roundHalfUp x) - n| ≤ 2 * |value x - n| by
    refine ⟨parts.1, parts.2.1, parts.2.2.trans ?_⟩
    have := approximates.close
    push_cast
    linarith
  rcases le_or_gt 0 (exponent x) with whole | fraction
  · rw [roundHalfUp, if_pos whole]
    refine ⟨approximates.finite, approximates.unsigned, ?_⟩
    linarith [abs_nonneg (value x - n)]
  · have small : value x + 1 / 2 < 2 ^ 53 := by
      have half : (2 : ℚ) ^ exponent x ≤ 2 ^ (-1 : ℤ) := zpow_le_zpow_right₀ (by norm_num) (by omega)
      have units : (significand x : ℚ) ≤ 2 ^ 53 := by exact_mod_cast (significand_lt x).le
      have : value x ≤ 2 ^ 53 * 2 ^ (-1 : ℤ) := by
        rw [value_of_unsigned approximates.unsigned, magnitude]
        gcongr
      norm_num at this
      linarith
    obtain ⟨finite, unsigned, same⟩ := roundHalfUp_exact approximates.finite approximates.unsigned small
    refine ⟨finite, unsigned, ?_⟩
    rw [same]
    have least := Nat.lt_floor_add_one (value x + 1 / 2)
    have most := Nat.floor_le (by linarith : 0 ≤ value x + 1 / 2)
    by_cases near : |value x - n| < 1 / 2
    · obtain ⟨below, above⟩ := abs_lt.mp near
      have floor : ⌊value x + 1 / 2⌋₊ = n := (Nat.floor_eq_iff (by linarith)).mpr ⟨by linarith, by linarith⟩
      rw [floor, sub_self, abs_zero]
      positivity
    · have step : |(⌊value x + 1 / 2⌋₊ : ℚ) - value x| ≤ 1 / 2 := abs_le.mpr ⟨by linarith, by linarith⟩
      have := abs_sub_le (⌊value x + 1 / 2⌋₊ : ℚ) (value x) n
      linarith

/-- A part of one, in units that are a power of ten. -/
theorem approximates_fraction {one rest : ℕ} (some : rest ≠ 0) (less : rest < one) (few : one ≤ 10 ^ 28) :
    Approximates (Float.ofNat rest / Float.ofNat one) (rest / one) 7 ∧
      (Float.ofNat rest / Float.ofNat one == 0) = false := by
  have fits : rest ≤ 2 ^ 200 := (less.le.trans few).trans (by norm_num)
  have positive : 0 < one := by omega
  have moderate := moderate_div some fits positive few
  have part := (approximates_ofNat fits).div (approximates_ofNat (few.trans (by norm_num))) (by positivity)
    (by positivity) moderate (by decide)
  refine ⟨part, ?_⟩
  have := (close_le moderate (by decide) part.close).1
  have := moderate.pos
  rw [beq_zero part.finite]
  exact decide_eq_false (by linarith)

theorem fraction_of_zero {one : ℕ} (some : one ≠ 0) (few : one ≤ 10 ^ 28) :
    (Float.ofNat 0 / Float.ofNat one == 0) = true := by
  obtain ⟨finite, unsigned, same⟩ := @ofNat_exact 0 (by decide)
  have divisor := @approximates_ofNat one (few.trans (by norm_num))
  have moderate := @moderate_natCast one some (few.trans (by norm_num))
  have least := (close_le moderate (by decide) divisor.close).1
  have nonzero : value (Float.ofNat one) ≠ 0 := by
    have := moderate.pos
    linarith
  have quotient := roundsTo_div finite unsigned divisor.finite divisor.unsigned nonzero
    (by rw [same, Nat.cast_zero, zero_div]; exact @lt_overflow _ 0 (by norm_num) (by decide))
  rw [same, Nat.cast_zero, zero_div] at quotient
  have none := @RoundsTo.exact_natCast _ 0 (by rwa [Nat.cast_zero]) (by decide)
  rw [beq_zero quotient.finite, none, Nat.cast_zero]
  rfl

end DecimalDoublesLemmas

open DecimalDoublesLemmas

/-- A decimal becomes a double but for thirty roundings. -/
theorem approximates_magnitudeToFloat {d : Decimal} (valid : d.Valid) :
    Approximates d.magnitudeToFloat d.size 30 := by
  have fits : d.units ≤ 2 ^ 200 := valid.fits.le.trans (Nat.pow_le_pow_right (by decide) (by decide))
  rw [magnitudeToFloat, Decimal.size]
  split
  · rename_i none
    rw [none, pow_zero, div_one]
    exact (approximates_ofNat fits).mono (by positivity) (by decide)
  · obtain ⟨one, one_eq⟩ : ∃ one, one = 10 ^ d.scale := ⟨_, rfl⟩
    have cast : (10 : ℚ) ^ d.scale = one := by rw [one_eq]; push_cast; rfl
    have positive : 0 < one := by rw [one_eq]; positivity
    have few : one ≤ 10 ^ 28 := by
      rw [one_eq]
      exact Nat.pow_le_pow_right (by decide) valid.scale_le
    have whole := @approximates_ofNat (d.units / one) ((Nat.div_le_self _ _).trans fits)
    have split := div_eq_add_mod d.units positive
    rw [cast, ← one_eq]
    by_cases none : d.units % one = 0
    · rw [none, Nat.cast_zero, zero_div, add_zero] at split
      simp only [none, fraction_of_zero positive.ne' few, if_true, split]
      exact whole.mono (by positivity) (by decide)
    · obtain ⟨fraction, nonzero⟩ := approximates_fraction none (Nat.mod_lt _ positive) few
      have power := approximates_powerOfTen (by have := valid.scale_le; omega : d.scale < 29)
      rw [← one_eq] at power
      have some : d.units ≠ 0 := fun zero => none (by rw [zero, Nat.zero_mod])
      have moderate := moderate_div some fits positive few
      have sum := (whole.mono (by positivity) (by decide)).add fraction (split ▸ moderate) (by decide)
      rw [← split] at sum
      have units := moderate_natCast some fits
      have product := sum.mul power moderate.pos.le (by positivity) (by rwa [div_mul_cancel₀ _ (by positivity)])
        (by decide)
      rw [div_mul_cancel₀ _ (by positivity)] at product
      simp only [nonzero, Bool.false_eq_true, if_false]
      exact (approximates_roundHalfUp product).div power units.pos.le (by positivity) moderate (by decide)

/-- The double of a decimal is next to it. -/
theorem toFloat_close {d : Decimal} (valid : d.Valid) :
    d.toFloat.isFinite = true ∧ |value d.toFloat - d.size| ≤ d.size * (30 / 2 ^ 53) := by
  have approximates := approximates_magnitudeToFloat valid
  have close : |value d.magnitudeToFloat - d.size| ≤ d.size * (30 / 2 ^ 53) := by exact_mod_cast approximates.close
  rw [toFloat]
  split
  · rename_i signed
    have size := size_eq_zero (valid.unsigned (Bool.and_eq_true_iff.mp signed).1)
    rw [size, zero_mul, sub_zero, abs_nonpos_iff] at close
    refine ⟨(parts_of_neg approximates.finite).1, ?_⟩
    rw [value_neg approximates.finite, close, size, neg_zero, sub_zero, abs_zero, zero_mul]
  · exact ⟨approximates.finite, close⟩

end RecordFormula.Number
