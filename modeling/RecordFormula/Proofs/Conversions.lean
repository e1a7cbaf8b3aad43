import RecordFormula.Proofs.Decimals

/-!
# What doubles become as decimals

A double that is not below zero becomes a decimal next to it, if it becomes one at all. Large doubles lose the
bits for which there is no room, and the others lose the digits that a double could not hold. Doubles too small
for the largest scale become zero, and this is not told apart from other conversions.

Results:
1. `normalize_cases`: a magnitude is cut to its first digits, or to nothing.
2. `double_bounds`: what is lost when a large double is written out.
3. `ofFloat?_close`: how far the decimal is from the double.
4. `ofFloat?_of_tiny`: doubles up to `9 / 10 ^ 29` become zero.
-/

namespace RecordFormula.Number

attribute [local instance] natPow

open Decimal Decimal.Magnitude DoublesLemmas

/-- The number without its sign. -/
def Decimal.size (d : Decimal) : ℚ := d.units / 10 ^ d.scale

theorem Decimal.size_nonneg (d : Decimal) : 0 ≤ d.size := by
  unfold Decimal.size
  positivity

theorem Decimal.size_eq_zero {d : Decimal} (none : d.units = 0) : d.size = 0 := by
  rw [Decimal.size, none, Nat.cast_zero, zero_div]

@[simp] theorem Decimal.size_zero : Decimal.zero.size = 0 := Decimal.size_eq_zero rfl

/-- A decimal as calculations leave it that start from doubles which are not below zero. -/
structure Decimal.Valid (d : Decimal) : Prop where
  fits : d.units < bound
  scale_le : d.scale ≤ 28
  unsigned : d.negative = true → d.units = 0

theorem Decimal.valid_zero : Decimal.zero.Valid := ⟨by decide, by decide, fun _ => rfl⟩

namespace Decimal.Magnitude

variable {m m' : Magnitude} {x : ℚ} {left scale dropped : ℕ}

/-! ## Small doubles -/

/-- Digits are dropped one after the other, or there are too few of them and nothing is left. -/
theorem truncate_cases (k : ℕ) (m : Magnitude) :
    truncate k m = dropDigits k m ∨ truncate k m = ⟨0, 0⟩ ∧ ∃ j < k, (dropDigits j m).units ≤ 9 := by
  induction k generalizing m with
  | zero => exact .inl rfl
  | succ k ih =>
    rw [truncate]
    by_cases last : m.units / 10 = 0
    · rw [if_pos last]
      exact .inr ⟨rfl, 0, by omega, by show m.units ≤ 9; omega⟩
    · rw [if_neg last, dropDigits_succ]
      rcases ih m.dropDigit with kept | ⟨lost, j, less, few⟩
      · exact .inl kept
      · exact .inr ⟨lost, j + 1, by omega, few⟩

theorem value_le_of_lost {j : ℕ} (less : j < (-m.power - 28).toNat) (few : (dropDigits j m).units ≤ 9) :
    m.value ≤ 945 / 10 ^ 31 := by
  obtain ⟨spare, spare_eq⟩ : ∃ spare : ℕ, m.power = -(spare + (j + 29) : ℕ) := ⟨(-m.power).toNat - (j + 29), by omega⟩
  have few : ((dropDigits j m).units : ℚ) ≤ 9 := by exact_mod_cast few
  have least := (units_dropDigits j m).1
  have power : (0 : ℚ) < 10 ^ j := by positivity
  have units : (m.units : ℚ) ≤ 945 / 100 * 10 ^ j := by nlinarith
  calc m.value = m.units / 10 ^ (spare + (j + 29)) := by rw [value, spare_eq, zpow_neg, zpow_natCast, div_eq_mul_inv]
    _ ≤ m.units / 10 ^ (j + 29) := by
      gcongr 1
      exact pow_le_pow_right₀ (by norm_num) (Nat.le_add_left _ _)
    _ ≤ 945 / 100 * 10 ^ j / 10 ^ (j + 29) := by gcongr
    _ = 945 / 10 ^ 31 := by
      rw [pow_add]
      field_simp
      norm_num

theorem units_dropDigit_le (m : Magnitude) : m.dropDigit.units ≤ m.units := by
  have := (units_dropDigit m).2
  omega

theorem units_dropDigits_le (k : ℕ) (m : Magnitude) : (dropDigits k m).units ≤ m.units := by
  induction k generalizing m with
  | zero => exact le_refl _
  | succ k ih =>
    rw [dropDigits_succ]
    exact (ih m.dropDigit).trans (units_dropDigit_le m)

theorem normalize_of_lost (low : m.power ≤ 0) (lost : truncate (-m.power - 28).toNat m = ⟨0, 0⟩) :
    m.normalize = some ⟨0, 0⟩ := by
  have none : m.power.toNat = 0 := by omega
  have cut : truncate (-m.power - maxScale).toNat m = ⟨0, 0⟩ := lost
  rw [normalize, none]
  show some (trimZeros _ (trimDigits _ (truncate (-m.power - maxScale).toNat m))) = _
  rw [cut]
  rfl

theorem truncate_of_few {k : ℕ} (few : m.units ≤ 9 * 10 ^ k) : truncate (k + 1) m = ⟨0, 0⟩ := by
  induction k generalizing m with
  | zero => rw [truncate, if_pos (by omega)]
  | succ k ih =>
    rw [truncate]
    split
    · rfl
    · refine ih ?_
      have := (units_dropDigit m).2
      rw [Nat.pow_succ] at few
      omega

/-- Nothing is left of a magnitude of up to nine tenths of a unit of the largest scale. -/
theorem normalize_of_tiny (low : m.power ≤ 0) (some : m.units ≠ 0) (tiny : m.value ≤ 9 / 10 ^ 29) :
    m.normalize = .some ⟨0, 0⟩ := by
  obtain ⟨all, all_eq⟩ : ∃ all : ℕ, m.power = -all := ⟨(-m.power).toNat, by omega⟩
  have least : (1 : ℚ) ≤ m.units := by exact_mod_cast Nat.pos_of_ne_zero some
  have most : (m.units : ℚ) ≤ 9 / 10 ^ 29 * 10 ^ all := by
    rw [Magnitude.units_eq all_eq]
    gcongr
  obtain ⟨more, rfl⟩ : ∃ more, all = more + 29 := by
    refine ⟨all - 29, (Nat.sub_add_cancel ?_).symm⟩
    by_contra short
    have : (10 : ℚ) ^ all ≤ 10 ^ 28 := pow_le_pow_right₀ (by norm_num) (by omega)
    linarith
  have few : m.units ≤ 9 * 10 ^ more := by
    rw [pow_add, mul_comm ((10 : ℚ) ^ more), ← mul_assoc, div_mul_cancel₀ _ (by norm_num)] at most
    exact_mod_cast most
  have spare : (-m.power - 28).toNat = more + 1 := by omega
  exact normalize_of_lost low (by rw [spare]; exact truncate_of_few few)

/-- A magnitude that is hardly smaller than a number is cut to decimal digits of it, or nothing is left of it. -/
theorem normalize_cases (low : m.power ≤ 0) (below : m.value ≤ x) (above : x * (1 - 1 / 2 ^ 80) ≤ m.value) :
    (m.normalize = some ⟨0, 0⟩ ∧ m.value ≤ 945 / 10 ^ 31) ∨
    ∃ left scale dropped, left ≤ m.units ∧ m.normalize = some (trimZeros scale ⟨left, -scale⟩) ∧
      Cut x left scale dropped := by
  rcases truncate_cases (-m.power - 28).toNat m with kept | ⟨lost, j, less, few⟩
  · obtain ⟨left, scale, dropped, left_eq, normalized, cut⟩ := cut_of_kept low below above kept
    exact .inr ⟨left, scale, dropped, left_eq ▸ units_dropDigits_le dropped m, normalized, cut⟩
  · exact .inl ⟨normalize_of_lost low lost, value_le_of_lost less few⟩

theorem Cut.close (cut : Cut x left scale dropped) (nonneg : 0 ≤ x) :
    |(left : ℚ) / 10 ^ scale - x| ≤ x / 10 ^ 14 + 6 / 10 ^ 29 ∧ (left : ℚ) / 10 ^ scale ≤ 9 / 4 * x := by
  obtain ⟨-, -, necessary, low, high⟩ := cut
  have power : (0 : ℚ) < 10 ^ scale := by positivity
  obtain ⟨y, y_eq⟩ : ∃ y, y = x * 10 ^ scale := ⟨_, rfl⟩
  have x_eq : x = y / 10 ^ scale := by rw [y_eq]; field_simp
  have y_nonneg : 0 ≤ y := by rw [y_eq]; positivity
  rw [← y_eq] at low high
  have part : (0 : ℚ) < 1 / 10 ^ dropped := by positivity
  have part_le : (1 : ℚ) / 10 ^ dropped ≤ 1 := by
    rw [div_le_one (by positivity)]
    exact one_le_pow₀ (by norm_num)
  constructor
  · have scaled : |(left : ℚ) - y| ≤ y / 10 ^ 14 + 6 / 10 ^ 29 * 10 ^ scale := by
      rcases necessary with rfl | rfl | many
      · rw [pow_zero, div_one, sub_self, mul_zero] at low high
        rw [abs_le]
        constructor <;> linarith
      · rw [abs_le]
        constructor <;> linarith
      · have many : (2 : ℚ) ^ 52 ≤ 10 * left + 4 := by exact_mod_cast many
        rw [abs_le]
        constructor <;> linarith
    rw [x_eq, ← sub_div, abs_div, abs_of_pos power, div_le_iff₀ power, add_mul, div_right_comm,
      div_mul_cancel₀ _ power.ne']
    exact scaled
  · have scaled : (left : ℚ) ≤ 9 / 4 * y := by
      rcases Nat.eq_zero_or_pos left with rfl | some
      · rw [Nat.cast_zero]
        positivity
      · have some : (1 : ℚ) ≤ left := by exact_mod_cast some
        linarith
    rw [x_eq, ← mul_div_assoc]
    gcongr

theorem size_trimZeros (left scale : ℕ) :
    ∃ short ≤ scale, (trimZeros scale ⟨left, -scale⟩).power = -(short : ℕ) ∧
      (trimZeros scale ⟨left, -scale⟩).units ≤ left ∧
      ((trimZeros scale ⟨left, -scale⟩).units : ℚ) / 10 ^ short = left / 10 ^ scale := by
  obtain ⟨j, le, units, power, -⟩ := exists_trimZeros scale ⟨left, -scale⟩
  obtain ⟨short, rfl⟩ := Nat.exists_eq_add_of_le le
  generalize trimZeros _ _ = m at *
  replace units : left = m.units * 10 ^ j := units
  refine ⟨short, by omega, by rw [power]; push_cast; ring, ?_, ?_⟩
  · rw [units]
    exact Nat.le_mul_of_pos_right _ (by positivity)
  · rw [units, pow_add]
    push_cast
    field_simp

/-! ## Large doubles -/

/-- The part of the number that is lost at most when units that cannot be doubled are divided by five. -/
def lossOfFifth : ℚ := 8 / 2 ^ 96

/-- What is left of a magnitude when so many powers of five are divided out, up to what may be lost each time. -/
structure DividedByFives (k : ℕ) (m m' : Magnitude) : Prop where
  le : m'.value * 5 ^ k ≤ m.value
  ge : m.value * (1 - lossOfFifth) ^ k ≤ m'.value * 5 ^ k

theorem DividedByFives.trans {k : ℕ} {after : Magnitude} (first : DividedByFives 1 m after)
    (rest : DividedByFives k after m') : DividedByFives (k + 1) m m' := by
  obtain ⟨most, least⟩ := first
  obtain ⟨below, above⟩ := rest
  have positive : (0 : ℚ) < 1 - lossOfFifth := by unfold lossOfFifth; norm_num
  rw [pow_one] at most least
  constructor
  · rw [pow_succ, ← mul_assoc]
    exact (mul_le_mul_of_nonneg_right below (by norm_num)).trans most
  · rw [pow_one] at least
    calc m.value * (1 - lossOfFifth) ^ (k + 1) = m.value * (1 - lossOfFifth) * (1 - lossOfFifth) ^ k := by ring
      _ ≤ after.value * 5 * (1 - lossOfFifth) ^ k := by gcongr
      _ = after.value * (1 - lossOfFifth) ^ k * 5 := by ring
      _ ≤ m'.value * 5 ^ k * 5 := by gcongr
      _ = m'.value * 5 ^ (k + 1) := by ring

/-- Units that are doubled under a lower power of ten are divided by five. -/
theorem dividedByFives_double (m : Magnitude) : DividedByFives 1 m ⟨m.units * 2, m.power - 1⟩ := by
  have same : (Magnitude.mk (m.units * 2) (m.power - 1)).value * 5 ^ 1 = m.value := by
    rw [value, value, zpow_sub_one₀ (by norm_num)]
    push_cast
    ring
  have nonneg : 0 ≤ m.value := by unfold value; positivity
  refine ⟨same.le, ?_⟩
  rw [same, pow_one]
  exact mul_le_of_le_one_right nonneg (by unfold lossOfFifth; norm_num)

/-- Many units that are divided by five at once lose less than four of them. -/
theorem dividedByFives_fifth (full : 2 ^ 95 ≤ m.units) : DividedByFives 1 m ⟨m.units / 5, m.power⟩ := by
  have power : (0 : ℚ) < 10 ^ m.power := by positivity
  have large : (2 : ℚ) ^ 95 ≤ m.units := by exact_mod_cast full
  have most : (5 : ℚ) * (m.units / 5 : ℕ) ≤ m.units := by exact_mod_cast (by omega : 5 * (m.units / 5) ≤ m.units)
  have least : (m.units : ℚ) ≤ 5 * (m.units / 5 : ℕ) + 4 := by
    exact_mod_cast (by omega : m.units ≤ 5 * (m.units / 5) + 4)
  have fifth : (Magnitude.mk (m.units / 5) m.power).value * 5 ^ 1 = 5 * (m.units / 5 : ℕ) * 10 ^ m.power := by
    rw [value]
    ring
  constructor
  · rw [fifth, value]
    gcongr
  · rw [fifth, value, pow_one, mul_right_comm]
    refine mul_le_mul_of_nonneg_right ?_ power.le
    unfold lossOfFifth
    linarith

/-- Doubling multiplies by a power of two, up to what may be lost at each step. -/
theorem double_bounds {k : ℕ} (doubled : double k m = some m') (fits : m.units < bound) (high : k ≤ m.power) :
    m'.units < bound ∧ 0 ≤ m'.power ∧ DividedByFives k m m' := by
  induction k generalizing m with
  | zero =>
    obtain rfl := Option.some.inj doubled
    exact ⟨fits, by simpa using high, by simp, by simp⟩
  | succ k ih =>
    rw [double] at doubled
    split at doubled
    · rename_i room
      have twice : bound = 2 * (bound / 2) := by decide
      obtain ⟨fits, low, rest⟩ := ih doubled (by show m.units * 2 < bound; omega)
        (by show (k : ℤ) ≤ m.power - 1; omega)
      exact ⟨fits, low, (dividedByFives_double m).trans rest⟩
    · rename_i full
      split at doubled
      · exact absurd doubled (by simp)
      · obtain ⟨fits, low, rest⟩ := ih doubled ((Nat.div_le_self _ _).trans_lt fits)
          (by show (k : ℤ) ≤ m.power; omega)
        exact ⟨fits, low, (dividedByFives_fifth (Nat.le_of_not_lt full)).trans rest⟩

theorem pow_one_sub_lossOfFifth {k : ℕ} (few : k ≤ 971) : 1 - 1 / 2 ^ 80 ≤ (1 - lossOfFifth) ^ k := by
  have bernoulli : 1 + (k : ℚ) * -lossOfFifth ≤ (1 + -lossOfFifth) ^ k :=
    one_add_mul_le_pow (by unfold lossOfFifth; norm_num) k
  have few : (k : ℚ) ≤ 971 := by exact_mod_cast few
  have small : (k : ℚ) * lossOfFifth ≤ 971 * lossOfFifth := by
    gcongr
    unfold lossOfFifth
    norm_num
  have least : 971 * lossOfFifth ≤ 1 / 2 ^ 80 := by unfold lossOfFifth; norm_num
  rw [← sub_eq_add_neg] at bernoulli
  linarith

theorem expand_eq {k : ℕ} (expanded : expand k m = some m') (fits : m.units < bound) :
    m'.units < bound ∧ m'.power = m.power - k ∧ m'.value = m.value := by
  induction k generalizing m with
  | zero =>
    obtain rfl := Option.some.inj expanded
    exact ⟨fits, by simp, rfl⟩
  | succ k ih =>
    rw [expand] at expanded
    split at expanded
    · rename_i room
      obtain ⟨fits', power, same⟩ := ih expanded room
      refine ⟨fits', by rw [power]; push_cast; ring, same.trans ?_⟩
      rw [value, value, zpow_sub_one₀ (by norm_num)]
      push_cast
      ring
    · exact absurd expanded (by simp)

theorem normalize_of_high (high : 0 ≤ m.power) (fits : m.units < bound) (normalized : m.normalize = some m') :
    m'.units < bound ∧ m'.power = 0 ∧ m'.value = m.value := by
  obtain ⟨whole, expanded, rfl⟩ := Option.map_eq_some_iff.mp normalized
  obtain ⟨fits', power, same⟩ := expand_eq expanded fits
  have none : whole.power = 0 := by omega
  have cut : truncate (-whole.power - maxScale).toNat whole = whole := by rw [none]; rfl
  have digits : trimDigits (-whole.power).toNat whole = whole := by rw [none]; rfl
  have zeros : trimZeros (-whole.power).toNat whole = whole := by rw [none]; rfl
  simp only [cut, digits, zeros]
  exact ⟨fits', none, same⟩

end Decimal.Magnitude

/-! ## Doubles that are not below zero -/

section Doubles

variable {x : Float} {d : Decimal}

/-- A finite double that is not below zero. -/
structure IsAddend (x : Float) : Prop where
  finite : x.isFinite = true
  nonneg : 0 ≤ value x

/-- What a decimal for a double is like. -/
structure IsConversion (x : Float) (d : Decimal) : Prop where
  valid : d.Valid
  close : |d.size - value x| ≤ value x / 10 ^ 14 + 945 / 10 ^ 31
  le : d.size ≤ 9 / 4 * value x

namespace ConversionsLemmas

theorem value_of_nonneg (nonneg : 0 ≤ value x) : value x = magnitude x := by
  rw [← abs_value, abs_of_nonneg nonneg]

theorem unsigned_of_nonneg (nonneg : 0 ≤ value x) (some : significand x ≠ 0) : isNegative x = false := by
  by_contra signed
  rw [Bool.not_eq_false] at signed
  have positive : 0 < magnitude x := by
    have : 0 < significand x := Nat.pos_of_ne_zero some
    unfold magnitude
    positivity
  rw [value, signed, if_pos rfl] at nonneg
  linarith

theorem ofFloat?_eq (finite : x.isFinite = true) (some : significand x ≠ 0) :
    ofFloat? x = ((ofBinary (significand x) (exponent x)).bind normalize).map fun m =>
      { negative := isNegative x, units := m.units, scale := (-m.power).toNat } := by
  rw [ofFloat?, finite, Bool.not_true, if_neg Bool.false_ne_true, if_neg some]
  cases ofBinary (significand x) (exponent x) with
  | none => rfl
  | some m => cases normalized : normalize m <;> simp [normalized]

theorem fits_significand (x : Float) : significand x < bound :=
  (significand_lt x).trans (by decide)

/-- Something next to a number below the units of the largest scale is a decimal for it, and nothing is too. -/
theorem isConversion_of_zero (nonneg : 0 ≤ value x) (tiny : value x ≤ 945 / 10 ^ 31 + value x / 10 ^ 14)
    (none : d.units = 0) (scale : d.scale = 0) : IsConversion x d := by
  have size := size_eq_zero none
  refine ⟨⟨by rw [none]; decide, by omega, fun _ => none⟩, ?_, by rw [size]; positivity⟩
  rw [size, zero_sub, abs_neg, abs_of_nonneg nonneg]
  linarith

theorem value_eq_div (nonneg : 0 ≤ value x) {k : ℕ} (fraction : exponent x = -k) :
    value x = significand x / 2 ^ k := by
  rw [value_of_nonneg nonneg, magnitude, fraction, zpow_neg, zpow_natCast, div_eq_mul_inv]

theorem exists_fraction (finite : x.isFinite = true) (low : exponent x < 0) :
    ∃ k ≤ 1074, exponent x = -(k : ℕ) :=
  ⟨(-exponent x).toNat, by have := (canonical_of_finite finite).low; omega, by omega⟩

/-- The decimal for a double with a negative exponent. -/
theorem isConversion_of_low (addend : IsAddend x) (units : significand x ≠ 0) (low : exponent x < 0)
    (converted : ofFloat? x = some d) : IsConversion x d := by
  obtain ⟨finite, nonneg⟩ := addend
  obtain ⟨k, few, fraction⟩ := exists_fraction finite low
  have unsigned := unsigned_of_nonneg nonneg units
  obtain ⟨m, binary, fits, power, below, above⟩ := exists_ofBinary (fits_significand x) few
  rw [← value_eq_div nonneg fraction] at below above
  rw [ofFloat?_eq finite units, fraction, binary, Option.bind_some] at converted
  rcases normalize_cases power below above with ⟨lost, tiny⟩ | ⟨left, scale, dropped, le, normalized, cut⟩
  · rw [lost] at converted
    obtain rfl := Option.some.inj converted
    exact isConversion_of_zero nonneg (by linarith) rfl rfl
  · obtain ⟨close, most⟩ := cut.close nonneg
    obtain ⟨short, short_le, power, units_le, same⟩ := size_trimZeros left scale
    simp only [normalized, Option.map_some, unsigned, power, neg_neg, Int.toNat_natCast, Option.some_inj] at converted
    subst converted
    have size : (Decimal.mk false (trimZeros scale ⟨left, -scale⟩).units short).size = left / 10 ^ scale := same
    refine ⟨⟨?_, short_le.trans cut.scale_le, fun signed => absurd signed Bool.false_ne_true⟩, ?_, ?_⟩
    · exact (units_le.trans le).trans_lt fits
    · rw [size]
      linarith
    · rwa [size]

/-- The decimal for a double without a fraction. -/
theorem isConversion_of_high (addend : IsAddend x) (units : significand x ≠ 0) (high : 0 ≤ exponent x)
    (converted : ofFloat? x = some d) : IsConversion x d := by
  obtain ⟨finite, nonneg⟩ := addend
  have unsigned := unsigned_of_nonneg nonneg units
  obtain ⟨e, e_eq⟩ := Int.eq_ofNat_of_zero_le high
  have same : value x = significand x * 2 ^ e := by
    rw [value_of_nonneg nonneg, magnitude, e_eq]
    rfl
  have few : e ≤ 971 := by
    have := (canonical_of_finite finite).high
    omega
  rw [ofFloat?_eq finite units, ofBinary, if_neg (not_lt_of_ge high), e_eq] at converted
  obtain ⟨m', found, rfl⟩ := Option.map_eq_some_iff.mp converted
  obtain ⟨m, doubled, normalized⟩ := Option.bind_eq_some_iff.mp found
  obtain ⟨fits, power, ⟨below, above⟩⟩ := double_bounds doubled (fits_significand x) (le_refl _)
  obtain ⟨fits', power', size⟩ := normalize_of_high power fits normalized
  have start : (Magnitude.mk (significand x) e).value = value x * 5 ^ e := by
    rw [Magnitude.value, zpow_natCast, same, mul_assoc, ← mul_pow]
    norm_num
  have power : (0 : ℚ) < 5 ^ e := by positivity
  rw [start] at below above
  rw [mul_right_comm] at above
  replace below : m'.value ≤ value x := size.trans_le (le_of_mul_le_mul_right below power)
  replace above : value x * (1 - lossOfFifth) ^ e ≤ m'.value := (le_of_mul_le_mul_right above power).trans size.ge
  have kept : value x * (1 - 1 / 2 ^ 80) ≤ m'.value :=
    (mul_le_mul_of_nonneg_left (pow_one_sub_lossOfFifth few) nonneg).trans above
  simp only [power', neg_zero, Int.toNat_zero, unsigned]
  have size : (Decimal.mk false m'.units 0).size = m'.value := by
    rw [Decimal.size, Magnitude.value, power', pow_zero, zpow_zero, div_one, mul_one]
  refine ⟨⟨fits', Nat.zero_le _, fun signed => absurd signed Bool.false_ne_true⟩, ?_, by rw [size]; linarith⟩
  rw [size, abs_le]
  constructor <;> linarith

end ConversionsLemmas

open ConversionsLemmas

/-- The decimal for a double that is not below zero is next to it. What it may be off beyond the digits of a double
is less than a unit of the largest scale. -/
theorem ofFloat?_close (addend : IsAddend x) (converted : ofFloat? x = some d) : IsConversion x d := by
  by_cases units : significand x = 0
  · obtain ⟨finite, nonneg⟩ := addend
    rw [ofFloat?, finite, Bool.not_true, if_neg Bool.false_ne_true, if_pos units] at converted
    obtain rfl := Option.some.inj converted
    exact isConversion_of_zero nonneg (by rw [value_eq_zero units]; norm_num) rfl rfl
  · rcases lt_or_ge (exponent x) 0 with low | high
    · exact isConversion_of_low addend units low converted
    · exact isConversion_of_high addend units high converted

/-- A double of up to nine tenths of a unit of the largest scale becomes zero. -/
theorem ofFloat?_of_tiny (addend : IsAddend x) (tiny : value x ≤ 9 / 10 ^ 29) :
    ∃ d, ofFloat? x = some d ∧ d.units = 0 := by
  obtain ⟨finite, nonneg⟩ := addend
  by_cases units : significand x = 0
  · rw [ofFloat?, finite, Bool.not_true, if_neg Bool.false_ne_true, if_pos units]
    exact ⟨_, rfl, rfl⟩
  have some : (1 : ℚ) ≤ significand x := by exact_mod_cast Nat.pos_of_ne_zero units
  have low : exponent x < 0 := by
    by_contra high
    have power : (1 : ℚ) ≤ 2 ^ exponent x := one_le_zpow₀ (by norm_num) (not_lt.mp high)
    have : (1 : ℚ) * 1 ≤ significand x * 2 ^ exponent x := by gcongr
    rw [value_of_nonneg nonneg, magnitude] at tiny
    linarith
  obtain ⟨k, few, fraction⟩ := exists_fraction finite low
  obtain ⟨m, binary, -, power, below, above⟩ := exists_ofBinary (fits_significand x) few
  rw [← value_eq_div nonneg fraction] at below above
  have positive : 0 < value x := by
    rw [value_eq_div nonneg fraction]
    positivity
  have left : m.units ≠ 0 := by
    intro none
    have : (0 : ℚ) < m.value := (mul_pos positive (by norm_num)).trans_le above
    rw [Magnitude.value, none, Nat.cast_zero, zero_mul] at this
    exact absurd this (lt_irrefl _)
  have lost := normalize_of_tiny power left (below.trans tiny)
  exact ⟨_, by rw [ofFloat?_eq finite units, fraction, binary, Option.bind_some, lost, Option.map_some], rfl⟩

end Doubles

end RecordFormula.Number
