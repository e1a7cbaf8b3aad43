import RecordFormula.Number.Decimal
import Mathlib

/-!
# Doubles as numbers

A finite double stands for a rational number: its significand times two to its exponent, with its sign.
The arithmetic of doubles is given by a model of floating-point numbers, which unpacks the bits of a double
and packs them again. Here the parts of a double are related to that model, and a double is compared
with the number that it stands in for.

Results:
1. `unpack_eq` and `parts_of_pack`: the model sees a finite double as its sign, significand and exponent,
   and what it packs has these parts.
2. `exists_double`: a whole number of up to 53 bits can be scaled to a double.
3. `RoundsTo.isNearest`: a number that is rounded becomes a nearest double.
4. `IsNearest.close`: a nearest double is within half a unit of its last place.
-/

namespace RecordFormula.Number

open Float.Model Float.Model.UnpackedFloat

/-! ## The parts of a double -/

namespace DoublesLemmas

variable (x : Float)

theorem toNat_unpackMantissa :
    (@unpackMantissa Format.binary64 x.toBits.toBitVec).toNat = fractionField x := by
  simp [unpackMantissa, fractionField, fractionBits]

theorem toNat_unpackExponent :
    (@unpackExponent Format.binary64 x.toBits.toBitVec).toNat = exponentField x := by
  simp [unpackExponent, exponentField, fractionBits, exponentBits, Nat.shiftRight_eq_div_pow]

theorem toNat_unpackSign :
    (@unpackSign Format.binary64 x.toBits.toBitVec).toNat = if isNegative x then 1 else 0 := by
  have small := x.toBits.toNat_lt
  have bit : (@unpackSign Format.binary64 x.toBits.toBitVec).toNat = x.toBits.toNat / 2 ^ 63 % 2 := by
    simp [unpackSign, Nat.shiftRight_eq_div_pow]
  have negative : isNegative x = decide (2 ^ 63 ≤ x.toBits.toNat) := rfl
  rw [bit, negative]
  by_cases large : 2 ^ 63 ≤ x.toBits.toNat
  · rw [decide_eq_true large, if_pos rfl]
    omega
  · rw [decide_eq_false large, if_neg Bool.false_ne_true]
    omega

/-- The sign bit as the sign of a model. -/
def sign : Sign := if isNegative x then .negative else .positive

theorem sign_unpackSign :
    Sign.ofBitVec (@unpackSign Format.binary64 x.toBits.toBitVec) = sign x := by
  have bit := toNat_unpackSign x
  unfold sign Sign.ofBitVec
  simp only [← BitVec.toNat_inj]
  rw [bit]
  cases isNegative x <;> rfl

theorem exponentField_lt : exponentField x < 2048 := Nat.mod_lt _ (by decide)

/-- The implicit bit stands in front of the fraction. -/
theorem toNat_one_append (mantissa : BitVec 52) : (1#1 ++ mantissa).toNat = 2 ^ 52 + mantissa.toNat := by
  rw [BitVec.toNat_append, ← Nat.shiftLeft_add_eq_or_of_lt mantissa.isLt]
  rfl

/-- The model sees a finite double as a zero or as its sign, significand and exponent. -/
theorem unpack_eq (finite : x.isFinite = true) :
    (significand x = 0 ∧ x.toModel.unpack = .zero (sign x)) ∨
      ∃ positive : 0 < significand x,
        x.toModel.unpack = .finite (sign x) (significand x) (exponent x) positive := by
  have mantissa := toNat_unpackMantissa x
  have field := toNat_unpackExponent x
  have signBit := sign_unpackSign x
  replace finite : (UnpackedFloat.unpack Format.binary64 x.toBits.toBitVec).isFinite = true := finite
  have bias :
      ((Format.binary64.exponentBias : Nat) : Int) + Format.binary64.mantissaBitsWithoutImplicit = 1075 := rfl
  show (_ ∧ UnpackedFloat.unpack Format.binary64 x.toBits.toBitVec = _) ∨
    ∃ positive, UnpackedFloat.unpack Format.binary64 x.toBits.toBitVec = _
  unfold UnpackedFloat.unpack at finite ⊢
  simp only [signBit, bias] at finite ⊢
  split at finite
  · split at finite <;> exact absurd finite (by simp [UnpackedFloat.isFinite])
  · rename_i notTop
    rw [if_neg notTop]
    by_cases low : @unpackExponent Format.binary64 x.toBits.toBitVec = 0#_
    · have noField : exponentField x = 0 := by rw [← field, low]; rfl
      rw [if_pos low]
      by_cases none : @unpackMantissa Format.binary64 x.toBits.toBitVec = 0#_
      · have noFraction : fractionField x = 0 := by rw [← mantissa, none]; rfl
        exact .inl ⟨by simp [significand, noField, noFraction], by rw [dif_pos none]⟩
      · have fraction : fractionField x ≠ 0 := by
          rw [← mantissa]
          exact fun zero => none (BitVec.toNat_inj.mp zero)
        have subnormal : significand x = fractionField x := by simp [significand, noField]
        refine .inr ⟨by omega, ?_⟩
        rw [dif_neg none]
        congr 1
        · rw [mantissa, subnormal]
        · rw [field, noField, exponent, noField]
          rfl
    · have hasField : exponentField x ≠ 0 := by
        rw [← field]
        exact fun zero => low (BitVec.toNat_inj.mp zero)
      have normal : significand x = 2 ^ 52 + fractionField x := by simp [significand, hasField, fractionBits]
      refine .inr ⟨by omega, ?_⟩
      rw [if_neg low]
      congr 1
      · rw [normal, ← mantissa]
        exact toNat_one_append _
      · rw [field, exponent, Nat.max_eq_right (by omega)]

variable {x}

theorem isFinite_of_exponentField (low : exponentField x < 2047) : x.isFinite = true := by
  show (UnpackedFloat.unpack Format.binary64 x.toBits.toBitVec).isFinite = true
  have notTop : @unpackExponent Format.binary64 x.toBits.toBitVec ≠ -1#_ := by
    intro top
    have field := toNat_unpackExponent x
    rw [top] at field
    exact absurd (field ▸ low) (by decide)
  unfold UnpackedFloat.unpack
  simp only [if_neg notTop]
  split
  · split <;> rfl
  · rfl

theorem fields_of_components {s : Sign} {field : BitVec 11} {fraction : BitVec 52}
    (bits : x.toBits.toBitVec = packComponents Format.binary64 s field fraction) :
    fractionField x = fraction.toNat ∧ exponentField x = field.toNat ∧ sign x = s := by
  refine ⟨?_, ?_, ?_⟩
  · rw [← toNat_unpackMantissa, bits, unpackMantissa_packComponents]
  · rw [← toNat_unpackExponent, bits, unpackExponent_packComponents]
  · rw [← sign_unpackSign, bits, unpackSign_packComponents, Sign.ofBitVec_toBitVec]

/-- A significand and an exponent that a finite double can have. -/
structure Canonical (units : Nat) (e : Int) : Prop where
  lt : units < 2 ^ 53
  low : -1074 ≤ e
  high : e ≤ 971
  full : 2 ^ 52 ≤ units ∨ e = -1074

/-- What is packed has the parts that were packed. -/
theorem parts_of_pack {s : Sign} {units : Nat} {e : Int} (positive : 0 < units) (canonical : Canonical units e)
    (made : x = .ofModel (.pack (.finite s units e positive))) :
    x.isFinite = true ∧ significand x = units ∧ exponent x = e ∧ sign x = s := by
  obtain ⟨lt, low, high, full⟩ := canonical
  have bits : x.toBits.toBitVec = UnpackedFloat.pack Format.binary64 (.finite s units e positive) := by
    rw [made]
    rfl
  have bias :
      ((Format.binary64.exponentBias : Nat) : Int) + Format.binary64.mantissaBitsWithoutImplicit = 1075 := rfl
  have field : (e + Format.binary64.exponentBias + Format.binary64.mantissaBitsWithoutImplicit).toNat =
      (e + 1075).toNat := by rw [Int.add_assoc, bias]
  unfold UnpackedFloat.pack at bits
  simp only [field] at bits
  rw [if_neg (by show ¬ 2 ^ 11 ≤ _; omega)] at bits
  by_cases normal : 2 ^ 52 ≤ units
  · have log : units.log2 = 52 := (Nat.log2_eq_iff (by omega)).mpr ⟨normal, lt⟩
    rw [if_pos (by rw [log]; rfl)] at bits
    obtain ⟨fraction, exponents, signs⟩ := fields_of_components bits
    rw [BitVec.toNat_ofNat] at fraction exponents
    have exponents : exponentField x = (e + 1075).toNat := by rw [exponents]; omega
    refine ⟨isFinite_of_exponentField (by omega), ?_, ?_, signs⟩
    · rw [significand, if_neg (by omega), fraction, fractionBits]
      omega
    · rw [exponent, exponents]
      omega
  · have log : units.log2 + 1 ≠ 53 := by
      intro log
      exact normal ((Nat.le_log2 (by omega)).mp (by omega))
    rw [if_neg (by exact log)] at bits
    obtain ⟨fraction, exponents, signs⟩ := fields_of_components bits
    rw [BitVec.toNat_ofNat] at fraction exponents
    refine ⟨isFinite_of_exponentField (by omega), ?_, ?_, signs⟩
    · rw [significand, if_pos exponents, fraction]
      omega
    · rw [exponent, exponents, full.resolve_left normal]
      rfl

/-- A zero that is packed has no units, and the exponent of the smallest doubles. -/
theorem parts_of_zero {s : Sign} (made : x = .ofModel (.pack (.zero s))) :
    x.isFinite = true ∧ significand x = 0 ∧ exponent x = -1074 ∧ sign x = s := by
  have bits : x.toBits.toBitVec = packComponents Format.binary64 s 0 0 := by
    rw [made]
    rfl
  obtain ⟨fraction, exponents, signs⟩ := fields_of_components bits
  have exponents : exponentField x = 0 := exponents
  exact ⟨isFinite_of_exponentField (by omega), by rw [significand, if_pos exponents, fraction]; rfl,
    by rw [exponent, exponents]; rfl, signs⟩

theorem canonical_of_finite (finite : x.isFinite = true) : Canonical (significand x) (exponent x) := by
  have notTop : exponentField x ≠ 2047 := by
    intro top
    replace finite : (UnpackedFloat.unpack Format.binary64 x.toBits.toBitVec).isFinite = true := finite
    have field : @unpackExponent Format.binary64 x.toBits.toBitVec = -1#_ := by
      apply BitVec.toNat_inj.mp
      rw [toNat_unpackExponent, top]
      rfl
    unfold UnpackedFloat.unpack at finite
    simp only [if_pos field] at finite
    split at finite <;> exact absurd finite (by simp [UnpackedFloat.isFinite])
  have small := exponentField_lt x
  refine ⟨significand_lt x, ?_, ?_, ?_⟩ <;> unfold exponent
  · omega
  · omega
  · by_cases low : exponentField x = 0
    · exact .inr (by rw [low]; rfl)
    · exact .inl (by rw [significand, if_neg low, fractionBits]; omega)

end DoublesLemmas

/-! ## The number that a double stands for -/

open DoublesLemmas

/-- The magnitude of a finite double. -/
def magnitude (x : Float) : ℚ := significand x * 2 ^ exponent x

/-- The number that a finite double is. Both zeros are 0. -/
def value (x : Float) : ℚ := if isNegative x then -magnitude x else magnitude x

/-- A finite double to which no finite double is preferable as an approximation of a number. -/
structure IsNearest (x : Float) (q : ℚ) : Prop where
  finite : x.isFinite = true
  nearest : ∀ y : Float, y.isFinite = true → |value x - q| ≤ |value y - q|

namespace DoublesLemmas

variable {x y : Float} {q : ℚ}

theorem magnitude_nonneg (x : Float) : 0 ≤ magnitude x := by
  unfold magnitude
  positivity

theorem abs_value (x : Float) : |value x| = magnitude x := by
  unfold value
  split
  · rw [abs_neg, abs_of_nonneg (magnitude_nonneg x)]
  · rw [abs_of_nonneg (magnitude_nonneg x)]

theorem value_of_unsigned (unsigned : isNegative x = false) : value x = magnitude x := by
  rw [value, unsigned]
  rfl

theorem value_eq_zero (none : significand x = 0) : value x = 0 := by
  simp [value, magnitude, none]

theorem value_zero : value 0 = 0 :=
  value_eq_zero (by decide +kernel)

theorem isNegative_of_sign {s : Sign} (signed : sign x = s) : isNegative x = (s == .negative) := by
  subst signed
  unfold sign
  cases isNegative x <;> rfl

/-- Any whole number of up to 53 bits can be scaled to a double of either sign. -/
theorem exists_double (negative : Bool) {units : Nat} {e : Int} (few : units ≤ 2 ^ 53) (low : -1074 ≤ e)
    (high : e ≤ 970) :
    ∃ y : Float, y.isFinite = true ∧ isNegative y = negative ∧ magnitude y = units * 2 ^ e := by
  have packed (units : Nat) (e : Int) (canonical : Canonical units e) :
      ∃ y : Float, y.isFinite = true ∧ isNegative y = negative ∧ magnitude y = units * 2 ^ e := by
    let s : Sign := if negative then .negative else .positive
    have signed : (s == .negative) = negative := by cases negative <;> rfl
    rcases Nat.eq_zero_or_pos units with rfl | positive
    · obtain ⟨finite, units, -, sign⟩ := parts_of_zero (s := s) rfl
      exact ⟨_, finite, by rw [isNegative_of_sign sign, signed], by simp [magnitude, units]⟩
    · obtain ⟨finite, units, e, sign⟩ := parts_of_pack (s := s) positive canonical rfl
      exact ⟨_, finite, by rw [isNegative_of_sign sign, signed], by rw [magnitude, units, e]⟩
  rcases Nat.eq_or_lt_of_le few with rfl | few
  · obtain ⟨y, finite, sign, same⟩ :=
      packed (2 ^ 52) (e + 1) ⟨by decide, by omega, by omega, .inl (Nat.le_refl _)⟩
    refine ⟨y, finite, sign, same.trans ?_⟩
    rw [zpow_add₀ two_ne_zero]
    push_cast
    ring
  obtain ⟨spare, rfl⟩ : ∃ spare : Nat, e = -1074 + spare := ⟨(e + 1074).toNat, by omega⟩
  induction spare generalizing units with
  | zero => exact packed _ _ ⟨few, low, by omega, .inr (by simp)⟩
  | succ spare ih =>
    by_cases normal : 2 ^ 52 ≤ units
    · exact packed _ _ ⟨few, low, by omega, .inl normal⟩
    · obtain ⟨y, finite, sign, same⟩ := @ih (2 * units) (by omega) (by omega) (by omega) (by omega)
      refine ⟨y, finite, sign, same.trans ?_⟩
      push_cast
      rw [← add_assoc, zpow_add₀ two_ne_zero _ 1]
      ring

theorem parts_of_neg (finite : x.isFinite = true) :
    (-x).isFinite = true ∧ significand (-x) = significand x ∧ exponent (-x) = exponent x ∧
      isNegative (-x) = !isNegative x := by
  have made : -x = .ofModel (.pack x.toModel.unpack.neg) := rfl
  have canonical := canonical_of_finite finite
  have flipped (signs : sign (-x) = -sign x) : isNegative (-x) = !isNegative x := by
    rw [isNegative_of_sign signs]
    unfold sign
    cases isNegative x <;> rfl
  rcases unpack_eq x finite with ⟨none, zero⟩ | ⟨positive, unpacked⟩
  · rw [zero] at made
    obtain ⟨finite, units, e, signs⟩ := parts_of_zero made
    have least := canonical.full.resolve_left (by omega)
    exact ⟨finite, units.trans none.symm, e.trans least.symm, flipped signs⟩
  · rw [unpacked] at made
    obtain ⟨finite, units, e, signs⟩ := parts_of_pack positive canonical made
    exact ⟨finite, units, e, flipped signs⟩

theorem value_neg (finite : x.isFinite = true) : value (-x) = -value x := by
  obtain ⟨-, units, e, flipped⟩ := parts_of_neg finite
  rw [value, value, magnitude, magnitude, units, e, flipped]
  cases isNegative x <;> simp

end DoublesLemmas

theorem IsNearest.neg {x : Float} {q : ℚ} (near : IsNearest x q) : IsNearest (-x) (-q) := by
  refine ⟨(parts_of_neg near.finite).1, fun y finite => ?_⟩
  calc |value (-x) - -q| = |value x - q| := by
        rw [value_neg near.finite, ← abs_neg]
        congr 1
        ring
    _ ≤ |value (-y) - q| := near.nearest (-y) (parts_of_neg finite).1
    _ = |value y - -q| := by
        rw [value_neg finite, ← abs_neg]
        congr 1
        ring

/-! ## Rounding -/

/-- A number is rounded to a nearest whole multiple of a power of two. The power is the least that there is
or so small that the number has 53 bits. -/
def IsRounded (rounded q : ℚ) : Prop :=
  ∃ (units : ℕ) (e : ℤ), rounded = units * 2 ^ e ∧ |(units : ℚ) * 2 ^ e - q| ≤ 2 ^ e / 2 ∧ -1074 ≤ e ∧
    (e = -1074 ∨ 2 ^ 52 * 2 ^ e ≤ q) ∧ q < 2 ^ 53 * 2 ^ e

/-- A finite double that is a number rounded, with the sign of the number. -/
structure Rounds (x : Float) (q : ℚ) : Prop where
  finite : x.isFinite = true
  rounded : IsRounded (magnitude x) |q|
  nonneg : isNegative x = false → 0 ≤ q
  nonpos : isNegative x = true → q ≤ 0

/-- A finite double without a sign that is a number rounded. -/
structure RoundsTo (x : Float) (q : ℚ) : Prop where
  finite : x.isFinite = true
  unsigned : isNegative x = false
  rounded : IsRounded (magnitude x) q

namespace DoublesLemmas

variable {x y : Float} {q : ℚ}

theorem abs_sub_le_of_int {n : ℤ} (m : ℤ) {q unit : ℚ} (positive : 0 < unit)
    (close : |(n : ℚ) * unit - q| ≤ unit / 2) :
    |(n : ℚ) * unit - q| ≤ |(m : ℚ) * unit - q| := by
  rcases eq_or_ne m n with rfl | other
  · exact le_refl _
  · have apart : (1 : ℚ) ≤ |(m : ℚ) - n| := by
      exact_mod_cast Int.one_le_abs (sub_ne_zero.mpr other)
    have far : unit ≤ |(m : ℚ) * unit - n * unit| := by
      rw [← sub_mul, abs_mul, abs_of_pos positive]
      nlinarith
    have triangle := abs_sub_le ((m : ℚ) * unit) q (n * unit)
    rw [abs_sub_comm q] at triangle
    linarith

/-- A double is a whole multiple of each smaller power of two. -/
theorem exists_value_eq (x : Float) {e : ℤ} (le : e ≤ exponent x) : ∃ n : ℤ, value x = n * 2 ^ e := by
  obtain ⟨k, more⟩ := Int.le.dest le
  have split : (2 : ℚ) ^ exponent x = 2 ^ k * 2 ^ e := by
    rw [← more, zpow_add₀ two_ne_zero, zpow_natCast, mul_comm]
  unfold value magnitude
  rw [split]
  split
  · exact ⟨-(significand x * 2 ^ k), by push_cast; ring⟩
  · exact ⟨significand x * 2 ^ k, by push_cast; ring⟩

end DoublesLemmas

theorem IsRounded.exact {rounded : ℚ} {units : ℕ} {e : ℤ} (isRounded : IsRounded rounded (units * 2 ^ e))
    (few : units ≤ 2 ^ 53) (low : -1074 ≤ e) : rounded = units * 2 ^ e := by
  obtain ⟨other, unit, rfl, close, -, full, -⟩ := isRounded
  have power : (0 : ℚ) < 2 ^ unit := by positivity
  obtain ⟨multiple, split⟩ : ∃ multiple : ℤ, (units : ℚ) * 2 ^ e = multiple * 2 ^ unit := by
    rcases le_or_gt unit e with fine | coarse
    · obtain ⟨k, rfl⟩ := Int.le.dest fine
      refine ⟨units * 2 ^ k, ?_⟩
      rw [zpow_add₀ two_ne_zero, zpow_natCast]
      push_cast
      ring
    · have full : (2 : ℚ) ^ 52 * 2 ^ unit ≤ units * 2 ^ e := full.resolve_left (by omega)
      have most : (units : ℚ) ≤ 2 ^ 53 := by exact_mod_cast few
      have double : (2 : ℚ) * 2 ^ e ≤ 2 ^ unit := by
        rw [mul_comm, ← zpow_add_one₀ two_ne_zero]
        exact zpow_le_zpow_right₀ (by norm_num) coarse
      refine ⟨2 ^ 52, le_antisymm ?_ (by exact_mod_cast full)⟩
      push_cast
      have := mul_le_mul_of_nonneg_right most (by positivity : (0 : ℚ) ≤ 2 ^ e)
      linarith
  have least := @abs_sub_le_of_int other multiple _ _ power (by exact_mod_cast close)
  rw [← split, sub_self, abs_zero] at least
  exact_mod_cast sub_eq_zero.mp (abs_eq_zero.mp (le_antisymm least (abs_nonneg _)))

/-- No double is nearer to a number than the number rounded. -/
theorem IsRounded.nearest {rounded q : ℚ} {y : Float} (isRounded : IsRounded rounded q) (finite : y.isFinite = true) :
    |rounded - q| ≤ |value y - q| := by
  obtain ⟨units, e, rfl, close, low, full, -⟩ := isRounded
  have unit : (0 : ℚ) < 2 ^ e := by positivity
  have nearest (n : ℤ) : |(units : ℚ) * 2 ^ e - q| ≤ |(n : ℚ) * 2 ^ e - q| := by
    exact_mod_cast @abs_sub_le_of_int units n _ _ unit (by exact_mod_cast close)
  by_cases coarse : e ≤ exponent y
  · obtain ⟨n, multiple⟩ := exists_value_eq y coarse
    rw [multiple]
    exact nearest n
  · -- A double with a smaller unit is below the least number of 53 bits.
    have canonical := canonical_of_finite finite
    have full : 2 ^ 52 * 2 ^ e ≤ q := full.resolve_left (by have := canonical.low; omega)
    have below : value y ≤ 2 ^ 52 * 2 ^ e := by
      calc value y ≤ magnitude y := (le_abs_self _).trans (abs_value y).le
        _ ≤ 2 ^ 53 * 2 ^ exponent y := by
          unfold magnitude
          gcongr
          exact_mod_cast canonical.lt.le
        _ ≤ 2 ^ 53 * 2 ^ (e - 1) := by
          gcongr
          · norm_num
          · omega
        _ = 2 ^ 52 * 2 ^ e := by
          rw [zpow_sub_one₀ two_ne_zero]
          ring
    calc |(units : ℚ) * 2 ^ e - q| ≤ |((2 ^ 52 : ℤ) : ℚ) * 2 ^ e - q| := nearest _
      _ = q - 2 ^ 52 * 2 ^ e := by
        rw [Int.cast_pow, Int.cast_ofNat, abs_sub_comm, abs_of_nonneg (by linarith)]
      _ ≤ q - value y := by linarith
      _ ≤ |value y - q| := by
        rw [abs_sub_comm]
        exact le_abs_self _

namespace Rounds

variable {x : Float} {q : ℚ}

theorem value_eq (rounds : Rounds x q) (exact : magnitude x = |q|) : value x = q := by
  unfold value
  cases negative : isNegative x with
  | true => rw [if_pos rfl, exact, abs_of_nonpos (rounds.nonpos negative), neg_neg]
  | false => rw [if_neg Bool.false_ne_true, exact, abs_of_nonneg (rounds.nonneg negative)]

theorem roundsTo (rounds : Rounds x q) (unsigned : isNegative x = false) : RoundsTo x q :=
  ⟨rounds.finite, unsigned, abs_of_nonneg (rounds.nonneg unsigned) ▸ rounds.rounded⟩

theorem exact_intCast {n : ℤ} (rounds : Rounds x n) (few : n.natAbs ≤ 2 ^ 53) : value x = n := by
  refine rounds.value_eq ?_
  have scaled : |(n : ℚ)| = n.natAbs * 2 ^ (0 : ℤ) := by rw [zpow_zero, mul_one, Nat.cast_natAbs, Int.cast_abs]
  have rounded := rounds.rounded
  rw [scaled] at rounded ⊢
  exact rounded.exact few (by decide)

end Rounds

namespace RoundsTo

variable {x y : Float} {q : ℚ}

theorem value_eq (rounds : RoundsTo x q) : value x = magnitude x := value_of_unsigned rounds.unsigned

/-- Rounding a number gives a nearest double. -/
theorem isNearest (rounds : RoundsTo x q) : IsNearest x q :=
  ⟨rounds.finite, fun y finite => by rw [rounds.value_eq]; exact rounds.rounded.nearest finite⟩

/-- Rounding changes a number by little. -/
theorem close (rounds : RoundsTo x q) (normal : 2 ^ (-1022 : ℤ) ≤ q) : |value x - q| ≤ q / 2 ^ 53 := by
  obtain ⟨units, e, same, close, -, full, -⟩ := rounds.rounded
  have fits : 2 ^ 52 * 2 ^ e ≤ q := by
    rcases full with rfl | full
    · refine le_trans (le_of_eq ?_) normal
      rw [← zpow_natCast, ← zpow_add₀ two_ne_zero]
      norm_num
    · exact full
  rw [rounds.value_eq, same]
  refine close.trans ?_
  linarith

theorem exact {units : ℕ} {e : ℤ} (rounds : RoundsTo x (units * 2 ^ e)) (few : units < 2 ^ 53)
    (low : -1074 ≤ e) : value x = units * 2 ^ e :=
  rounds.value_eq.trans (rounds.rounded.exact few.le low)

theorem exact_natCast {n : ℕ} (rounds : RoundsTo x n) (few : n < 2 ^ 53) : value x = n := by
  have scaled : (n : ℚ) = n * 2 ^ (0 : ℤ) := by rw [zpow_zero, mul_one]
  rw [scaled] at rounds ⊢
  exact rounds.exact few (by decide)

end RoundsTo

/-! ## Nearest doubles -/

namespace IsNearest

variable {x : Float} {q : ℚ}

theorem abs_sub_le (near : IsNearest x q) : |value x - q| ≤ |q| := by
  obtain ⟨zero, finite, unsigned, none⟩ := @exists_double false 0 0 (by decide) (by decide) (by decide)
  have closer := near.nearest zero finite
  rwa [value_of_unsigned unsigned, none, Nat.cast_zero, zero_mul, zero_sub, abs_neg] at closer

theorem nonneg (near : IsNearest x q) (nonneg : 0 ≤ q) : 0 ≤ value x := by
  have closer := near.abs_sub_le
  rw [abs_of_nonneg nonneg] at closer
  have := neg_le_of_abs_le closer
  linarith

theorem value_eq_magnitude (near : IsNearest x q) (nonneg : 0 ≤ q) : value x = magnitude x :=
  (abs_of_nonneg (near.nonneg nonneg)).symm.trans (abs_value x)

/-- A nearest double is within half a unit of its last place, as it has neighbours. -/
theorem close (near : IsNearest x q) (nonneg : 0 ≤ q) (high : exponent x ≤ 970) :
    |value x - q| ≤ 2 ^ exponent x / 2 := by
  have canonical := canonical_of_finite near.finite
  have same : value x = significand x * 2 ^ exponent x := near.value_eq_magnitude nonneg
  have unit : (0 : ℚ) < 2 ^ exponent x := by positivity
  have closer (units : ℕ) (few : units ≤ 2 ^ 53) : |value x - q| ≤ |(units : ℚ) * 2 ^ exponent x - q| := by
    obtain ⟨y, finite, unsigned, magnitude_eq⟩ := exists_double false few canonical.low high
    rw [← magnitude_eq, ← value_of_unsigned unsigned]
    exact near.nearest y finite
  rcases le_total (value x) q with below | above
  · have next := closer (significand x + 1) canonical.lt
    push_cast at next
    rw [add_mul, one_mul, ← same, abs_of_nonpos (sub_nonpos.mpr below)] at next
    rw [abs_of_nonpos (sub_nonpos.mpr below)]
    rcases le_total (value x + 2 ^ exponent x) q with farther | between
    · rw [abs_of_nonpos (by linarith)] at next
      linarith
    · rw [abs_of_nonneg (by linarith)] at next
      linarith
  · rcases Nat.eq_zero_or_pos (significand x) with none | some
    · rw [none, Nat.cast_zero, zero_mul] at same
      rw [abs_of_nonneg (sub_nonneg.mpr above)]
      linarith
    · have next := closer (significand x - 1) (by have := canonical.lt; omega)
      rw [Nat.cast_sub some, Nat.cast_one, sub_mul, one_mul, ← same, abs_of_nonneg (sub_nonneg.mpr above)] at next
      rw [abs_of_nonneg (sub_nonneg.mpr above)]
      rcases le_total q (value x - 2 ^ exponent x) with farther | between
      · rw [abs_of_nonneg (by linarith)] at next
        linarith
      · rw [abs_of_nonpos (by linarith)] at next
        linarith

end IsNearest

end RecordFormula.Number
