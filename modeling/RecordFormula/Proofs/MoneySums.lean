import RecordFormula.Proofs.Amounts
import RecordFormula.Proofs.NumberOrder
import RecordFormula.Proofs.Rounding
import RecordFormula.Proofs.RecordValues

/-!
# Sums of money

The numbers of a field are added as decimals, and the total is turned into a double again. It goes back in
two parts: the fraction is rounded when it is divided, when the whole part is added, when the scale is
multiplied out and when it is divided by again. With two digits behind the point the steps in between are
made good by rounding to a whole number of units, and only the last of them is left.

Results:
1. `magnitudeToFloat_nearest`: a decimal with at most two digits behind the point becomes a double nearest
   to it.
2. `sum_of_amounts`: a sum of amounts that do not drift is nearest to the sum of the amounts.
3. `not_isNearest_of_drifts`: a single amount that drifts is not even summed to itself.
4. `sum_of_field`: this is what `SUM` of a field does with amounts.
-/

namespace RecordFormula.Number

attribute [local instance] natPow

open Decimal Magnitude DoublesLemmas AmountsLemmas DecimalSumsLemmas

variable {x : Float} {n places : ℕ} {k : ℤ}

namespace MoneySumsLemmas

/-! ## Quotients of whole numbers -/

theorem normal_of_le {q : ℚ} (large : 1 / 2 ^ 60 ≤ q) : (2 : ℚ) ^ (-1022 : ℤ) ≤ q :=
  ((zpow_le_zpow_right₀ (by norm_num) (by norm_num : (-1022 : ℤ) ≤ -60)).trans (by norm_num)).trans large

theorem small_of_lt {q : ℚ} (less : q < 2 ^ 60) : q < overflow := lt_overflow less (by decide)

theorem roundsTo_ofNat_div {a b : ℕ} (few : a < 2 ^ 53) (few' : b < 2 ^ 53) (positive : 0 < b) :
    RoundsTo (Float.ofNat a / Float.ofNat b) (a / b) := by
  obtain ⟨finite, unsigned, same⟩ := ofNat_exact few
  obtain ⟨finite', unsigned', same'⟩ := ofNat_exact few'
  have small : (a : ℚ) / b < overflow := by
    have few : (a : ℚ) < 2 ^ 53 := by exact_mod_cast few
    have one_le : (1 : ℚ) ≤ b := by exact_mod_cast positive
    exact small_of_lt ((div_le_self (by positivity) one_le).trans_lt (by linarith))
  have divided := roundsTo_div finite unsigned finite' unsigned' (by rw [same']; positivity)
    (by rwa [same, same'])
  rwa [same, same'] at divided

/-! ## Back to a double -/

theorem roundHalfUp_exact (finite : x.isFinite = true) (unsigned : isNegative x = false)
    (small : value x + 1 / 2 < 2 ^ 53) :
    (roundHalfUp x).isFinite = true ∧ isNegative (roundHalfUp x) = false ∧
      value (roundHalfUp x) = ⌊value x + 1 / 2⌋₊ := by
  have same : value x = significand x * 2 ^ exponent x := value_of_unsigned unsigned
  rw [roundHalfUp]
  by_cases whole : 0 ≤ exponent x
  · rw [if_pos whole]
    obtain ⟨e, e_eq⟩ := Int.eq_ofNat_of_zero_le whole
    have integral : value x = (significand x * 2 ^ e : ℕ) := by
      rw [same, e_eq]
      push_cast
      rfl
    refine ⟨finite, unsigned, ?_⟩
    rw [integral]
    congr 1
    refine ((Nat.floor_eq_iff (by positivity)).mpr ⟨?_, ?_⟩).symm <;> linarith
  · rw [if_neg whole]
    obtain ⟨e, e_eq⟩ : ∃ e : ℕ, exponent x = -e := ⟨(-exponent x).toNat, by omega⟩
    have places : (-exponent x).toNat = e := by omega
    have floor : ⌊value x + 1 / 2⌋₊ = (2 * significand x + 2 ^ e) / (2 * 2 ^ e) := by
      rw [← Nat.floor_div_eq_div (K := ℚ), same, e_eq, zpow_neg, zpow_natCast]
      congr 1
      push_cast
      field_simp
    simp only [places]
    rw [← floor]
    refine ofNat_exact ?_
    have : (⌊value x + 1 / 2⌋₊ : ℚ) < 2 ^ 53 := by
      refine lt_of_le_of_lt (Nat.floor_le ?_) small
      rw [same]
      positivity
    exact_mod_cast this

/-- What is rounded half up to units of a scale is divided by the scale and rounded once more. -/
theorem roundsTo_roundHalfUp_div {one : ℕ} (finite : x.isFinite = true) (unsigned : isNegative x = false)
    (small : value x + 1 / 2 < 2 ^ 53) (positive : 0 < one) (few : one < 2 ^ 53) :
    RoundsTo (roundHalfUp x / Float.ofNat one) (⌊value x + 1 / 2⌋₊ / one) := by
  obtain ⟨finiteO, unsignedO, valueO⟩ := ofNat_exact few
  obtain ⟨finite', unsigned', rounded⟩ := roundHalfUp_exact finite unsigned small
  have nonneg : 0 ≤ value x := by
    rw [value_of_unsigned unsigned]
    exact magnitude_nonneg x
  have one_le : (1 : ℚ) ≤ one := by exact_mod_cast positive
  have divided := roundsTo_div finite' unsigned' finiteO unsignedO (by rw [valueO]; positivity) (by
    rw [rounded, valueO]
    refine small_of_lt ((div_le_self (by positivity) one_le).trans_lt ?_)
    exact (Nat.floor_le (by linarith)).trans_lt (by linarith))
  rwa [rounded, valueO] at divided

theorem powerOfTen_eq {scale : ℕ} (few : scale < 10) : powerOfTen 5 scale 10 1 = Float.ofNat (10 ^ scale) := by
  have all : ∀ scale < 10, powerOfTen 5 scale 10 1 = Float.ofNat (10 ^ scale) := by decide +kernel
  exact all scale few

theorem magnitudeToFloat_whole {d : Decimal} (fits : d.units < 2 ^ 52) (few : d.scale < 10) {whole : ℕ}
    (integral : d.units = whole * 10 ^ d.scale) :
    d.magnitudeToFloat.isFinite = true ∧ isNegative d.magnitudeToFloat = false ∧
      value d.magnitudeToFloat = whole := by
  have positive : 0 < 10 ^ d.scale := by positivity
  have power : 10 ^ d.scale < 2 ^ 53 :=
    (Nat.pow_le_pow_right (by decide) (by omega : d.scale ≤ 9)).trans_lt (by decide)
  have le : whole ≤ d.units := by
    rw [integral]
    exact Nat.le_mul_of_pos_right _ positive
  have exact := @ofNat_exact whole (by omega)
  rw [magnitudeToFloat]
  split
  · rename_i none
    rwa [integral, none, pow_zero, mul_one]
  · have quotient : d.units / 10 ^ d.scale = whole := by rw [integral, Nat.mul_div_cancel _ positive]
    have rest : d.units % 10 ^ d.scale = 0 := by rw [integral, Nat.mul_mod_left]
    have fraction := @roundsTo_ofNat_div 0 _ (by decide) power positive
    rw [Nat.cast_zero, zero_div] at fraction
    have none := @RoundsTo.exact_natCast _ 0 (by rwa [Nat.cast_zero]) (by decide)
    rw [Nat.cast_zero] at none
    simp only [quotient, rest]
    rw [beq_zero fraction.finite, decide_eq_true none, if_pos rfl]
    exact exact

/-- The fraction of a decimal is not rounded to zero, so the whole part is added to it, and the sum is near to
the decimal. -/
theorem exists_sum_of_parts {units one : ℕ} (fits : units < 2 ^ 52) (positive : 0 < one) (few : one < 2 ^ 40)
    (fraction : units % one ≠ 0) :
    (Float.ofNat (units % one) / Float.ofNat one == 0) = false ∧ ∃ q : ℚ, |q - units / one| ≤ 1 / 2 ^ 53 ∧
      RoundsTo (Float.ofNat (units / one) + Float.ofNat (units % one) / Float.ofNat one) q := by
  obtain ⟨finite, unsigned, whole⟩ := @ofNat_exact (units / one) ((Nat.div_le_self _ _).trans_lt (by omega))
  have divided : RoundsTo (Float.ofNat (units % one) / Float.ofNat one) ((units % one : ℕ) / one) :=
    roundsTo_ofNat_div ((Nat.mod_le _ _).trans_lt (by omega)) (by omega) positive
  have split := div_eq_add_mod units positive
  have rest_le : ((units % one : ℕ) : ℚ) / one ≤ 1 := by
    rw [div_le_one (by positivity)]
    exact_mod_cast (Nat.mod_lt units positive).le
  have rest_ge : 1 / 2 ^ 40 ≤ ((units % one : ℕ) : ℚ) / one := by
    have some : (1 : ℚ) ≤ (units % one : ℕ) := by exact_mod_cast Nat.pos_of_ne_zero fraction
    have few : (one : ℚ) ≤ 2 ^ 40 := by exact_mod_cast few.le
    gcongr
  have whole_le : ((units / one : ℕ) : ℚ) ≤ 2 ^ 52 := by exact_mod_cast (Nat.div_le_self _ _).trans fits.le
  generalize Float.ofNat (units % one) / Float.ofNat one = f at divided ⊢
  have close := divided.close (normal_of_le (by linarith))
  obtain ⟨below, above⟩ := abs_le.mp close
  have nonzero : value f ≠ 0 := by
    intro zero
    rw [zero] at below
    linarith
  have sum := roundsTo_add finite unsigned divided.finite divided.unsigned
    (by rw [whole]; exact small_of_lt (by linarith))
  refine ⟨by rw [beq_zero divided.finite, decide_eq_false nonzero], _, ?_, sum⟩
  rw [whole, split, add_sub_add_left_eq_sub]
  exact close.trans (by linarith)

/-- When the scale is multiplied out the number of units is met but for two roundings. -/
theorem mul_of_sum {q : ℚ} {units one : ℕ} (some : units ≠ 0) (fits : units < 2 ^ 52) (positive : 0 < one)
    (few : one < 2 ^ 40) (near : |q - units / one| ≤ 1 / 2 ^ 53) (sum : RoundsTo x q) :
    (x * Float.ofNat one).isFinite = true ∧ isNegative (x * Float.ofNat one) = false ∧
      |value (x * Float.ofNat one) - value x * one| ≤ value x * one / 2 ^ 53 ∧
      value (x * Float.ofNat one) + 1 / 2 < 2 ^ 53 := by
  obtain ⟨finite, unsigned, same⟩ := @ofNat_exact one (by omega)
  have one_ge : (1 : ℚ) ≤ one := by exact_mod_cast positive
  have one_le : (one : ℚ) ≤ 2 ^ 40 := by exact_mod_cast few.le
  have quotient_ge : 1 / 2 ^ 40 ≤ (units : ℚ) / one := by
    have some : (1 : ℚ) ≤ units := by exact_mod_cast Nat.pos_of_ne_zero some
    gcongr
  obtain ⟨below, above⟩ := abs_le.mp near
  obtain ⟨belowSum, aboveSum⟩ := abs_le.mp (sum.close (normal_of_le (by linarith)))
  have least : 1 / 2 ^ 41 ≤ value x * one :=
    calc (1 : ℚ) / 2 ^ 41 = 1 / 2 ^ 41 * 1 := (mul_one _).symm
      _ ≤ value x * one := mul_le_mul (by linarith) one_ge (by norm_num) (by linarith)
  have most : value x * one ≤ 2 ^ 52 + 2 :=
    calc value x * one ≤ ((units : ℚ) / one + 1 / 2 ^ 53) * (1 + 1 / 2 ^ 53) * one := by
          gcongr
          linarith
      _ = (units + one / 2 ^ 53) * (1 + 1 / 2 ^ 53) := by
          field_simp
      _ ≤ (2 ^ 52 + 1) * (1 + 1 / 2 ^ 53) := by
          have fits : (units : ℚ) ≤ 2 ^ 52 := by exact_mod_cast fits.le
          gcongr
          linarith
      _ ≤ 2 ^ 52 + 2 := by norm_num
  have product := roundsTo_mul sum.finite sum.unsigned finite unsigned
    (by rw [same]; exact small_of_lt (by linarith))
  rw [same] at product
  have close := product.close (normal_of_le (by linarith))
  have := (abs_le.mp close).2
  exact ⟨product.finite, product.unsigned, close, by linarith⟩

/-- Otherwise it is rounded four times: the fraction, the sum `x` and the product `y` before the last. -/
theorem magnitudeToFloat_rounds {d : Decimal} (fits : d.units < 2 ^ 52) (few : d.scale < 10)
    (fraction : d.units % 10 ^ d.scale ≠ 0) :
    ∃ (q : ℚ) (x y : Float), |q - d.units / 10 ^ d.scale| ≤ 1 / 2 ^ 53 ∧ RoundsTo x q ∧
      |value y - value x * 10 ^ d.scale| ≤ value x * 10 ^ d.scale / 2 ^ 53 ∧
      RoundsTo d.magnitudeToFloat (⌊value y + 1 / 2⌋₊ / 10 ^ d.scale) := by
  have scaled : d.scale ≠ 0 := by
    intro none
    rw [none, pow_zero, Nat.mod_one] at fraction
    exact fraction rfl
  have some : d.units ≠ 0 := fun none => fraction (by rw [none, Nat.zero_mod])
  have positive : 0 < 10 ^ d.scale := by positivity
  obtain ⟨one, one_eq⟩ : ∃ one, one = 10 ^ d.scale := ⟨_, rfl⟩
  have one_lt : one < 2 ^ 40 := by
    rw [one_eq]
    exact (Nat.pow_le_pow_right (by decide) (by omega : d.scale ≤ 9)).trans_lt (by decide)
  have power : powerOfTen 5 d.scale 10 1 = Float.ofNat one := by rw [powerOfTen_eq few, one_eq]
  have cast : (10 : ℚ) ^ d.scale = one := by rw [one_eq]; push_cast; rfl
  rw [← one_eq] at fraction positive
  obtain ⟨nonzero, q, near, sum⟩ := exists_sum_of_parts fits positive one_lt fraction
  obtain ⟨finite, unsigned, close, small⟩ := mul_of_sum some fits positive one_lt near sum
  have last := roundsTo_roundHalfUp_div finite unsigned small positive (by omega)
  rw [cast, magnitudeToFloat, if_neg scaled, power, ← one_eq]
  simp only [nonzero, Bool.false_eq_true, if_false]
  exact ⟨q, _, _, near, sum, close, last⟩

theorem isNearest_of_value_eq {q : ℚ} (finite : x.isFinite = true) (same : value x = q) : IsNearest x q :=
  ⟨finite, fun y _ => by rw [same, sub_self, abs_zero]; exact abs_nonneg _⟩

/-- At a scale of two digits at most the roundings are so small that the number of units comes back. -/
theorem floor_of_rounds {y : Float} {q one : ℚ} {units : ℕ} (some : units ≠ 0) (few : units ≤ 10 ^ 12)
    (one_ge : 1 ≤ one) (one_le : one ≤ 100) (near : |q - units / one| ≤ 1 / 2 ^ 53) (sum : RoundsTo x q)
    (product : |value y - value x * one| ≤ value x * one / 2 ^ 53) : ⌊value y + 1 / 2⌋₊ = units := by
  have positive : 0 < one := by linarith
  have few : (units : ℚ) ≤ 10 ^ 12 := by exact_mod_cast few
  have some : (1 : ℚ) ≤ units := by exact_mod_cast Nat.pos_of_ne_zero some
  have whole : (units : ℚ) / one * one = units := div_mul_cancel₀ _ positive.ne'
  have quotient_le : (units : ℚ) / one ≤ 10 ^ 12 := (div_le_self (by linarith) one_ge).trans few
  have quotient_ge : 1 / 100 ≤ (units : ℚ) / one := by gcongr
  obtain ⟨below, above⟩ := abs_le.mp near
  obtain ⟨belowSum, aboveSum⟩ := abs_le.mp (sum.close (normal_of_le (by linarith)))
  obtain ⟨belowProduct, aboveProduct⟩ := abs_le.mp product
  have off : |(value x - units / one) * one| ≤ 1 / 10 := by
    have off : |value x - units / one| ≤ 1 / 1000 := abs_le.mpr ⟨by linarith, by linarith⟩
    rw [abs_mul, abs_of_pos positive]
    calc |value x - units / one| * one ≤ 1 / 1000 * 100 := by gcongr
      _ = 1 / 10 := by norm_num
  obtain ⟨belowOff, aboveOff⟩ := abs_le.mp off
  rw [sub_mul, whole] at belowOff aboveOff
  rw [Nat.floor_eq_iff (by linarith)]
  constructor <;> linarith

/-- With two digits behind the point at most the last rounding is the only one. -/
theorem magnitudeToFloat_nearest {d : Decimal} (short : d.scale ≤ 2) (few : d.units ≤ 10 ^ 12) :
    IsNearest d.magnitudeToFloat (d.units / 10 ^ d.scale) := by
  by_cases integral : d.units % 10 ^ d.scale = 0
  · obtain ⟨whole, whole_eq⟩ := Nat.dvd_of_mod_eq_zero integral
    rw [mul_comm] at whole_eq
    obtain ⟨finite, -, same⟩ := magnitudeToFloat_whole (by omega) (by omega) whole_eq
    refine isNearest_of_value_eq finite ?_
    rw [same, whole_eq]
    push_cast
    field_simp
  · obtain ⟨q, x, y, near, sum, product, last⟩ := magnitudeToFloat_rounds (by omega) (by omega) integral
    have some : d.units ≠ 0 := fun none => integral (by rw [none, Nat.zero_mod])
    have one_le : (10 : ℚ) ^ d.scale ≤ 100 :=
      (pow_le_pow_right₀ (by norm_num) short).trans (by norm_num)
    rw [floor_of_rounds some few (one_le_pow₀ (by norm_num)) one_le near sum product] at last
    exact last.isNearest

theorem toFloat_of_amount {d : Decimal} (amount : d.IsAmount k) (few : k.natAbs ≤ 10 ^ 12) :
    IsNearest d.toFloat (k / 100) := by
  obtain ⟨short, same⟩ := amount
  obtain ⟨more, whole⟩ : ∃ more, 2 = d.scale + more := Nat.exists_eq_add_of_le short
  have spare : 2 - d.scale = more := by omega
  rw [unitsAt, spare] at same
  have size : d.units * 10 ^ more = k.natAbs := by
    rw [← same]
    split
    · rw [Int.natAbs_neg, Int.natAbs_natCast]
    · rw [Int.natAbs_natCast]
  have few' : d.units ≤ 10 ^ 12 := (Nat.le_mul_of_pos_right _ (by positivity)).trans (size.le.trans few)
  have near := magnitudeToFloat_nearest short few'
  have hundredths : (d.units : ℚ) / 10 ^ d.scale = (k.natAbs : ℕ) / 100 := by
    have hundred : (100 : ℚ) = 10 ^ d.scale * 10 ^ more := by
      rw [← pow_add, ← whole]
      norm_num
    rw [← size, hundred]
    push_cast
    field_simp
  rw [hundredths] at near
  rw [toFloat]
  cases negative : d.negative with
  | false =>
    rw [negative, if_neg (by decide), size] at same
    rw [Bool.false_and, if_neg (by decide), ← same]
    rwa [Int.cast_natCast]
  | true =>
    rw [negative, if_pos rfl, size] at same
    rw [Bool.true_and, ← same, Int.cast_neg, Int.cast_natCast, neg_div]
    split
    · exact near.neg
    · rename_i zero
      have none : d.units = 0 := by
        simp only [Bool.not_eq_true', Bool.not_eq_false, Bool.and_eq_true, beq_iff_eq] at zero
        exact zero.2
      rw [none, Nat.zero_mul] at size
      rw [← size] at near ⊢
      simpa using near

/-- A number just above the middle between a double and the next is not rounded down. -/
theorem le_value_of_rounds {q : ℚ} {units places : ℕ} (rounds : RoundsTo x q) (few : places ≤ 60)
    (full : 2 ^ 52 ≤ units) (above : ((units : ℚ) + 1 / 2) / 2 ^ places < q) (below : q < 2 ^ 53 / 2 ^ places) :
    ((units : ℚ) + 1) / 2 ^ places ≤ value x := by
  obtain ⟨other, e, same, close, -, full', lt⟩ := rounds.rounded
  obtain ⟨unit, unit_eq⟩ : ∃ unit : ℚ, unit = 1 / 2 ^ places := ⟨_, rfl⟩
  have power : (2 : ℚ) ^ (-places : ℤ) = unit := by rw [zpow_neg, zpow_natCast, unit_eq, one_div]
  rw [div_eq_mul_one_div, ← unit_eq] at above below ⊢
  have positive : 0 < unit := by rw [unit_eq]; positivity
  have large : (2 : ℚ) ^ 52 * unit ≤ (units + 1 / 2) * unit := by
    gcongr
    have : (2 : ℚ) ^ 52 ≤ units := by exact_mod_cast full
    linarith
  have fine : -(places : ℤ) ≤ e := by
    have less : (2 : ℚ) ^ (-places : ℤ) < 2 ^ (e + 1) := by
      rw [power, zpow_add₀ two_ne_zero, zpow_one]
      linarith
    have := (zpow_lt_zpow_iff_right₀ one_lt_two).mp less
    omega
  have coarse : e ≤ -(places : ℤ) := by
    have full' := full'.resolve_left (by omega)
    have less : (2 : ℚ) ^ e < 2 ^ (-(places : ℤ) + 1) := by
      rw [zpow_add₀ two_ne_zero, power, zpow_one]
      linarith
    have := (zpow_lt_zpow_iff_right₀ one_lt_two).mp less
    omega
  obtain rfl := le_antisymm coarse fine
  rw [power] at same close
  have next : units + 1 ≤ other := by
    have : (units : ℚ) * unit < other * unit := by
      have := (abs_le.mp close).1
      linarith
    exact_mod_cast lt_of_mul_lt_mul_right this positive.le
  rw [rounds.value_eq, same]
  gcongr
  exact_mod_cast next

/-- What comes back of an amount that drifts is farther away than the double that it was. -/
theorem magnitudeToFloat_of_drifts {d : Decimal} {places : ℕ} (near : IsClose x n places) (fits : d.units < 2 ^ 52)
    (more : d.units * 100 = n * 10 ^ d.scale + 100) (pair : AlmostMeet places d.scale)
    (last : remainder (significand x) n places = 12) :
    d.magnitudeToFloat.isFinite = true ∧ isNegative d.magnitudeToFloat = false ∧
      |magnitude x - n / 100| < |magnitude d.magnitudeToFloat - n / 100| := by
  have few : d.scale < 10 ∧ 2 ≤ places ∧ places ≤ 60 := by
    unfold AlmostMeet at pair
    omega
  have off := sub_hundredths (significand x) n few.2.1
  rw [last] at off
  have fraction : d.units % 10 ^ d.scale ≠ 0 := by
    rcases pair with ⟨-, scale⟩ | ⟨-, scale⟩ <;> rw [scale] at more ⊢ <;> omega
  obtain ⟨q, w, z, closeQ, sum, product, final⟩ := magnitudeToFloat_rounds fits few.1 fraction
  refine ⟨final.finite, final.unsigned, ?_⟩
  obtain ⟨unit, unit_eq⟩ : ∃ unit : ℚ, unit = 1 / 2 ^ places := ⟨_, rfl⟩
  obtain ⟨step, step_eq⟩ : ∃ step : ℚ, step = 1 / 10 ^ d.scale := ⟨_, rfl⟩
  -- A unit of the last decimal place is a little more than one of the last binary place.
  have ratio : 104 / 100 * unit ≤ step ∧ step ≤ 108 / 100 * unit ∧ 1 / 2 ^ 30 ≤ unit := by
    rw [unit_eq, step_eq]
    rcases pair with ⟨rfl, scale⟩ | ⟨rfl, scale⟩ <;> rw [scale] <;> norm_num
  obtain ⟨least, most, fine⟩ := ratio
  have positive : (0 : ℚ) < 10 ^ d.scale := by positivity
  have one : step * 10 ^ d.scale = 1 := by rw [step_eq, one_div, inv_mul_cancel₀ positive.ne']
  have digits : (d.units : ℚ) = (n / 100 + step) * 10 ^ d.scale := by
    have more : (d.units : ℚ) * 100 = n * 10 ^ d.scale + 100 := by exact_mod_cast more
    rw [add_mul, one]
    linarith
  have quotient : (d.units : ℚ) / 10 ^ d.scale = n / 100 + step := by
    rw [digits, mul_div_cancel_right₀ _ positive.ne']
  have fits' : (d.units : ℚ) ≤ 2 ^ 52 := by exact_mod_cast fits.le
  have half : (n / 100 + step) / 2 ^ 53 ≤ step / 2 := by
    refine le_of_mul_le_mul_right ?_ positive
    rw [digits] at fits'
    rw [div_mul_eq_mul_div, div_mul_eq_mul_div, one]
    linarith
  rw [quotient] at closeQ
  obtain ⟨belowQ, aboveQ⟩ := abs_le.mp closeQ
  have full : (2 : ℚ) ^ 52 ≤ significand x := by exact_mod_cast near.full
  rw [div_eq_mul_one_div, ← unit_eq, div_eq_mul_one_div (_ / 25), ← unit_eq, Int.cast_ofNat] at off
  have next := @le_value_of_rounds _ _ _ places sum few.2.2 near.full
    (by rw [div_eq_mul_one_div, ← unit_eq]; linarith) (by rw [div_eq_mul_one_div, ← unit_eq]; linarith)
  rw [div_eq_mul_one_div, ← unit_eq] at next
  have rounded : d.units ≤ ⌊value z + 1 / 2⌋₊ := by
    have up : (d.units : ℚ) + 37 / 100 ≤ value w * 10 ^ d.scale := by
      calc (d.units : ℚ) + 37 / 100 = (n / 100 + 137 / 100 * step) * 10 ^ d.scale := by
            rw [digits, add_mul, add_mul, mul_assoc, one]
            ring
        _ ≤ value w * 10 ^ d.scale := by
            gcongr
            linarith
    have := (abs_le.mp product).1
    exact Nat.le_floor (by linarith)
  have more : n / 100 + step ≤ (⌊value z + 1 / 2⌋₊ : ℚ) / 10 ^ d.scale := by
    rw [← quotient]
    gcongr
  have nonneg : (0 : ℚ) ≤ n / 100 := by positivity
  have := (abs_le.mp (final.close (normal_of_le (by linarith)))).1
  rw [← final.value_eq, near.magnitude_eq, div_eq_mul_one_div, ← unit_eq, off, abs_of_nonneg (by linarith),
    abs_of_nonneg (by linarith)]
  linarith

end MoneySumsLemmas

open MoneySumsLemmas

/-! ## Sums -/

/-- A sum of doubles that are nearest to amounts that do not drift is nearest to the sum of the amounts. -/
theorem sum_of_amounts {xs : List Float} {ks : List ℤ}
    (nearest : List.Forall₂ (fun x (k : ℤ) => IsNearest x (k / 100)) xs ks) (steady : ∀ k ∈ ks, ¬ Drifts k)
    (few : (ks.map Int.natAbs).sum ≤ 10 ^ 12) : IsNearest (sum xs) (ks.sum / 100) := by
  have start : Decimal.zero.IsAmount 0 := ⟨Nat.zero_le _, rfl⟩
  obtain ⟨d, total, amount⟩ := decimalTotal_of_amounts nearest steady start (by simpa using few)
  rw [zero_add] at amount
  rw [sum, total]
  exact toFloat_of_amount amount ((natAbs_sum_le ks).trans few)

/-- A single amount that drifts is not what its sum is nearest to. -/
theorem not_isNearest_of_drifts (few : k.natAbs ≤ 10 ^ 12) (drifts : Drifts k) (near : IsNearest x (k / 100)) :
    ¬ IsNearest (sum [x]) (k / 100) := by
  have some : k ≠ 0 := by
    rintro rfl
    exact absurd drifts (by decide)
  obtain ⟨sign, places, parts⟩ := isClose_of_amount some few near
  obtain ⟨d, converted, negative, fits, more, pair⟩ := ofFloat?_of_drifts few drifts near.finite parts
  obtain ⟨finite, unsigned, farther⟩ :=
    magnitudeToFloat_of_drifts parts fits more pair (remainder_of_drifts drifts parts).1
  have total : sum [x] = if k < 0 then -d.magnitudeToFloat else d.magnitudeToFloat := by
    have nonzero : (d.scale == 0) = false := by
      unfold AlmostMeet at pair
      exact beq_false_of_ne (by omega)
    rw [sum, decimalTotal, converted]
    show toFloat d = _
    rw [toFloat, negative, sign, nonzero, Bool.false_and, Bool.not_false, Bool.and_true]
    simp only [decide_eq_true_eq]
  have signed : isNegative (sum [x]) = decide (k < 0) ∧ magnitude (sum [x]) = magnitude d.magnitudeToFloat := by
    obtain ⟨-, units, e, flipped⟩ := parts_of_neg finite
    rw [total]
    by_cases below : k < 0
    · rw [if_pos below, flipped, unsigned, decide_eq_true below, magnitude, units, e]
      exact ⟨rfl, rfl⟩
    · rw [if_neg below, unsigned, decide_eq_false below]
      exact ⟨rfl, rfl⟩
  intro nearest
  refine absurd (nearest.nearest x near.finite) (not_le_of_gt ?_)
  rwa [abs_value_sub sign, abs_value_sub signed.1, signed.2]

end RecordFormula.Number

namespace RecordFormula

open NestingLemmas TreeLemmas ComparisonsLemmas RecordValuesLemmas

/-- The numbers that the records of a context have for a name. -/
def Context.numbers (ctx : Context) (name : String) : List Float :=
  ctx.data.records.filterMap fun record => ((ctx.resolve record name).getD .null).number?

namespace MoneySumsLemmas

variable {ctx : Context} {name : String}

theorem valuesOf_field (free : isReserved name = false) {records : List Record}
    (found : ∀ record ∈ records, ctx.strict = true → (ctx.resolve record name).isSome = true) :
    AggregateArgument.valuesOf evaluate [.field name] ctx records =
      .ok (records.map fun record => Value.ofField ((ctx.resolve record name).getD .null)) := by
  have value : ∀ record ∈ records, evaluate [.field name] (ctx.forRecord record) =
      .ok (Value.ofField ((ctx.resolve record name).getD .null)) := by
    intro record mem
    have looked : ctx.lookup record name = .ok (ctx.resolve record name) := by
      unfold Context.lookup
      cases resolved : ctx.resolve record name with
      | some value => rfl
      | none =>
        cases strict : ctx.strict with
        | false => rfl
        | true => exact absurd (resolved ▸ found record mem strict) (by simp)
    rw [evaluate_field free]
    show (ctx.lookup record name >>= _) = _
    rw [looked]
    rfl
  refine valuesOf_eq_ok_iff.mpr ⟨fun record mem => ⟨_, value record mem⟩, ?_⟩
  rw [← List.filterMap_eq_map]
  refine List.filterMap_congr fun record mem => ?_
  rw [value record mem]
  rfl

theorem evaluate_sum (free : isReserved name = false)
    (found : ∀ record ∈ ctx.data.records, ctx.strict = true → (ctx.resolve record name).isSome = true) :
    evaluate (sumFunction.callTokens [[.field name]]) ctx = .ok (.number (Number.sum (ctx.numbers name))) := by
  have closed : isClosed Token.endsArgument 0 [.field name] = true := by
    refine (isClosed_cons rfl).mpr ⟨fun _ => ?_, rfl⟩
    have noWhere : (Token.field name).isWhere = false := (Bool.or_eq_false_iff.mp free).1
    simp [Token.endsArgument, noWhere, Token.isComma]
  have values : AggregateArgument.numbers evaluate { value := [.field name], condition := none } "SUM" ctx =
      .ok (ctx.numbers name) := by
    rw [AggregateArgument.numbers, AggregateArgument.values, if_neg (by simp [AggregateArgument.isWildcard]),
      AggregateArgument.matching]
    show (AggregateArgument.valuesOf evaluate [.field name] ctx ctx.data.records >>= _) = _
    rw [valuesOf_field free found]
    show Except.ok (List.filterMap _ (List.map _ _)) = _
    rw [List.filterMap_map, Context.numbers]
    congr 2
    funext record
    exact number?_ofField _
  have isArgument : IsArgument [.field name] := ⟨isClosed_mono endsArgument_of_isComma closed, by simp⟩
  rw [evaluate_callTokens (by simp [isArgument]) rfl, run_reduction rfl (parse_value closed)]
  show (AggregateArgument.numbers _ _ "SUM" _ >>= _) = _
  rw [values]
  rfl

end MoneySumsLemmas

open MoneySumsLemmas

/-- The sum of a field whose numbers are nearest to amounts in hundredths, not too large together, is nearest
to the sum of the amounts if none of them drifts. A single amount that drifts has a sum that is not even
nearest to itself. -/
theorem sum_of_field {ctx : Context} {name : String} {ks : List ℤ} (free : isReserved name = false)
    (found : ∀ record ∈ ctx.data.records, ctx.strict = true → (ctx.resolve record name).isSome = true)
    (nearest : List.Forall₂ (fun x (k : ℤ) => Number.IsNearest x (k / 100)) (ctx.numbers name) ks)
    (few : (ks.map Int.natAbs).sum ≤ 10 ^ 12) :
    ∃ total, evaluate (sumFunction.callTokens [[.field name]]) ctx = .ok (.number total) ∧
      ((∀ k ∈ ks, ¬ Number.Drifts k) → Number.IsNearest total (ks.sum / 100)) ∧
      ∀ k, ks = [k] → Number.Drifts k → ¬ Number.IsNearest total (k / 100) := by
  refine ⟨_, evaluate_sum free found, fun steady => Number.sum_of_amounts nearest steady few, ?_⟩
  rintro k rfl drifts
  obtain ⟨x, xs, near, rest, numbers⟩ := List.forall₂_cons_right_iff.mp nearest
  rw [List.forall₂_nil_right_iff.mp rest] at numbers
  rw [numbers]
  exact Number.not_isNearest_of_drifts (by simpa using few) drifts near

/-- Records of amounts in cents. -/
def cents (ks : List ℕ) : Data :=
  .many (ks.map fun k => .ofList [("amount", .number (Float.ofNat k / Float.ofNat 100))])

theorem MoneySumsLemmas.isNearest_cents {k : ℕ} (few : k < 2 ^ 53) :
    Number.IsNearest (Float.ofNat k / Float.ofNat 100) ((k : ℤ) / 100) := by
  have rounds := Number.MoneySumsLemmas.roundsTo_ofNat_div few (by decide : 100 < 2 ^ 53) (by decide)
  rw [Nat.cast_ofNat] at rounds
  rw [Int.cast_natCast]
  exact rounds.isNearest

/-- Ten and twenty cents are thirty, but a single amount may become another. -/
theorem cents_total :
    (∃ total, evaluate (sumFunction.callTokens [[.field "amount"]]) { data := cents [10, 20] } =
      .ok (.number total) ∧ Number.IsNearest total (30 / 100)) ∧
    ∃ total, evaluate (sumFunction.callTokens [[.field "amount"]]) { data := cents [419430423] } =
      .ok (.number total) ∧ ¬ Number.IsNearest total (419430423 / 100) := by
  have free : isReserved "amount" = false := by with_unfolding_all rfl
  constructor
  · have nearest : List.Forall₂ (fun x (k : ℤ) => Number.IsNearest x (k / 100))
        (Context.numbers { data := cents [10, 20] } "amount") [10, 20] :=
      .cons (isNearest_cents (by decide)) (.cons (isNearest_cents (by decide)) .nil)
    obtain ⟨total, found, exact, -⟩ :=
      sum_of_field free (fun _ _ strict => absurd strict (by decide)) nearest (by decide)
    have thirty : (([10, 20] : List ℤ).sum : ℚ) = 30 := by norm_num
    exact ⟨total, found, thirty ▸ exact (by decide)⟩
  · have nearest : List.Forall₂ (fun x (k : ℤ) => Number.IsNearest x (k / 100))
        (Context.numbers { data := cents [419430423] } "amount") [419430423] :=
      .cons (isNearest_cents (by decide)) .nil
    obtain ⟨total, found, -, off⟩ :=
      sum_of_field free (fun _ _ strict => absurd strict (by decide)) nearest (by decide)
    have farther := off 419430423 rfl (by decide)
    rw [Int.cast_ofNat] at farther
    exact ⟨total, found, farther⟩

end RecordFormula
