import RecordFormula.Proofs.Decimals
import RecordFormula.Proofs.DecimalSums

/-!
# Amounts of money as decimals

An amount is a number of hundredths. The double nearest to it is off by less than half a unit of its last
place, and as a decimal it is the amount again: the digits that are dropped are too few to matter. It is
not where they are nearly half a unit of the last decimal place that stays, and this happens for one
remainder in two ranges of amounts.

Results:
1. `ofFloat?_of_amount`: a double nearest to an amount is that amount as a decimal, unless the amount drifts.
2. `ofFloat?_of_drifts`: an amount that drifts is one unit of the last decimal place more.
3. `decimalTotal_of_amounts`: amounts that do not drift are added without loss.
-/

namespace RecordFormula.Number

attribute [local instance] natPow

open Decimal Magnitude DoublesLemmas

/-- An amount in hundredths whose double is so far above it that the digits dropped from it are rounded up. -/
def Drifts (k : ℤ) : Prop :=
  (k.natAbs % 25 = 2 ∧ 429496729600 ≤ k.natAbs ∧ k.natAbs ≤ 450359962737) ∨
    (k.natAbs % 25 = 23 ∧ 419430400 ≤ k.natAbs ∧ k.natAbs ≤ 450359962)

instance (k : ℤ) : Decidable (Drifts k) := inferInstanceAs (Decidable (_ ∨ _))

/-- A decimal with at most two digits behind the point is an amount in hundredths. -/
structure Decimal.IsAmount (d : Decimal) (k : ℤ) : Prop where
  short : d.scale ≤ 2
  same : d.unitsAt 2 = k

variable {x : Float} {n places : ℕ} {k : ℤ}

namespace AmountsLemmas

/-! ## Doubles nearest to amounts -/

/-- The parts of a double that is nearest to an amount, without its sign, and how many binary places it has
behind the point. -/
structure IsClose (x : Float) (n places : ℕ) : Prop where
  full : 2 ^ 52 ≤ significand x
  lt : significand x < 2 ^ 53
  exponent_eq : exponent x = -places
  least : 19 ≤ places
  most : places ≤ 59
  close : |(significand x : ℚ) / 2 ^ places - n / 100| ≤ 1 / 2 ^ places / 2

theorem IsClose.magnitude_eq {places : ℕ} (close : IsClose x n places) :
    magnitude x = significand x / 2 ^ places := by
  rw [magnitude, close.exponent_eq, zpow_neg, zpow_natCast, div_eq_mul_inv]

theorem exponent_lt_of_lt {e : ℤ} (full : 2 ^ 52 ≤ significand x) (small : magnitude x < 2 ^ 52 * 2 ^ e) :
    exponent x < e := by
  by_contra coarse
  refine absurd small (not_lt_of_ge ?_)
  unfold magnitude
  gcongr
  · exact_mod_cast full
  · norm_num
  · omega

theorem lt_exponent_of_le {e : ℤ} (large : 2 ^ 53 * 2 ^ e ≤ magnitude x) : e < exponent x := by
  by_contra fine
  refine absurd large (not_le_of_gt ?_)
  calc magnitude x = significand x * 2 ^ exponent x := rfl
    _ < 2 ^ 53 * 2 ^ exponent x := by
      gcongr
      exact_mod_cast significand_lt x
    _ ≤ 2 ^ 53 * 2 ^ e := by
      gcongr
      · norm_num
      · omega

theorem isClose_of_positive (some : 0 < n) (few : n ≤ 10 ^ 12) (near : IsNearest x (n / 100)) :
    isNegative x = false ∧ ∃ places, IsClose x n places := by
  have canonical := canonical_of_finite near.finite
  have least : (1 : ℚ) / 100 ≤ n / 100 := by
    gcongr
    exact_mod_cast some
  have most : (n : ℚ) / 100 ≤ 10 ^ 10 := by
    have few : (n : ℚ) ≤ 10 ^ 12 := by exact_mod_cast few
    linarith
  have nonneg : (0 : ℚ) ≤ n / 100 := by positivity
  have same := near.value_eq_magnitude nonneg
  have twice := near.abs_sub_le
  rw [abs_of_nonneg nonneg, same] at twice
  have below : exponent x < 0 := by
    rcases canonical.full with full | least
    · refine exponent_lt_of_lt full ?_
      have := le_of_abs_le twice
      rw [zpow_zero]
      linarith
    · omega
  have close := near.close nonneg (by omega)
  rw [same] at close
  obtain ⟨under, beyond⟩ := abs_le.mp close
  have full : 2 ^ 52 ≤ significand x := by
    refine canonical.full.resolve_right fun smallest => ?_
    have tiny : (2 : ℚ) ^ exponent x ≤ 1 / 2 ^ 60 :=
      (zpow_le_zpow_right₀ (by norm_num) (by omega : exponent x ≤ -60)).trans (by norm_num)
    exact absurd (@lt_exponent_of_le x (exponent x) (by linarith)) (lt_irrefl _)
  have half : 2 ^ exponent x / 2 ≤ magnitude x / 2 ^ 53 := by
    have units : (2 : ℚ) ^ 52 * 2 ^ exponent x ≤ magnitude x := by
      unfold magnitude
      gcongr
      exact_mod_cast full
    linarith
  have fine : exponent x < -18 := exponent_lt_of_lt full (by norm_num; linarith)
  have coarse : -60 < exponent x := lt_exponent_of_le (by norm_num; linarith)
  have unsigned : isNegative x = false := by
    rw [Bool.eq_false_iff]
    intro negative
    have : value x = -magnitude x := by rw [value, if_pos negative]
    linarith
  obtain ⟨places, places_eq⟩ : ∃ places : ℕ, exponent x = -places := ⟨(-exponent x).toNat, by omega⟩
  refine ⟨unsigned, places, full, canonical.lt, places_eq, by omega, by omega, ?_⟩
  rw [magnitude, places_eq, zpow_neg, zpow_natCast, ← div_eq_mul_inv, inv_eq_one_div] at close
  exact close

theorem isClose_of_amount (some : k ≠ 0) (few : k.natAbs ≤ 10 ^ 12) (near : IsNearest x (k / 100)) :
    isNegative x = decide (k < 0) ∧ ∃ places, IsClose x k.natAbs places := by
  rcases lt_or_gt_of_ne some with negative | positive
  · have opposite := near.neg
    have size : -((k : ℚ) / 100) = (k.natAbs : ℕ) / 100 := by
      rw [← neg_div, Nat.cast_natAbs, abs_of_neg negative]
      push_cast
      rfl
    rw [size] at opposite
    obtain ⟨-, units, e, flipped⟩ := parts_of_neg near.finite
    obtain ⟨unsigned, places, full, lt, exponent_eq, least, most, close⟩ :=
      isClose_of_positive (Int.natAbs_pos.mpr some) few opposite
    rw [flipped, Bool.not_eq_false'] at unsigned
    rw [units] at full lt close
    have sign : isNegative x = decide (k < 0) := by rw [unsigned, decide_eq_true negative]
    exact ⟨sign, places, full, lt, e.symm.trans exponent_eq, least, most, close⟩
  · have size : (k : ℚ) / 100 = (k.natAbs : ℕ) / 100 := by
      rw [Nat.cast_natAbs, abs_of_pos positive]
    rw [size] at near
    obtain ⟨unsigned, parts⟩ := isClose_of_positive (Int.natAbs_pos.mpr some) few near
    exact ⟨by rw [unsigned, decide_eq_false (by omega)], parts⟩

theorem value_eq_zero (near : IsNearest x 0) : value x = 0 := by
  have closer := near.abs_sub_le
  rw [sub_zero, abs_zero] at closer
  exact abs_eq_zero.mp (le_antisymm closer (abs_nonneg _))

theorem abs_value_sub (sign : isNegative x = decide (k < 0)) :
    |value x - k / 100| = |magnitude x - k.natAbs / 100| := by
  rw [value, sign]
  by_cases negative : k < 0
  · have size : (k : ℚ) = -(k.natAbs : ℕ) := by
      rw [Nat.cast_natAbs, abs_of_neg negative]
      push_cast
      ring
    rw [decide_eq_true negative, if_pos rfl, size, neg_div, ← neg_sub', abs_neg]
  · have size : (k : ℚ) = (k.natAbs : ℕ) := by rw [Nat.cast_natAbs, abs_of_nonneg (by omega)]
    rw [decide_eq_false negative, if_neg Bool.false_ne_true, size]

/-! ## Conversion -/

theorem ofFloat?_eq (finite : x.isFinite = true) (some : significand x ≠ 0) :
    ofFloat? x = ((ofBinary (significand x) (exponent x)).bind normalize).map fun m =>
      { negative := isNegative x, units := m.units, scale := (-m.power).toNat } := by
  rw [ofFloat?, finite, if_neg (by decide), if_neg some]
  cases ofBinary (significand x) (exponent x) with
  | none => rfl
  | some m => cases normal : m.normalize <;> simp [normal]

/-- An amount drifts if its double is twelve twenty-fifths of a unit above it. -/
theorem drifts_of_remainder {units left scale places : ℕ} (full : 2 ^ 52 ≤ units) (digits : left < 2 ^ 52)
    (more : left * 100 = k.natAbs * 10 ^ scale + 100)
    (pair : AlmostMeet places scale) (last : remainder units k.natAbs places = 12) : Drifts k := by
  unfold Drifts
  unfold remainder at last
  generalize k.natAbs = n at *
  rcases pair with ⟨rfl, rfl⟩ | ⟨rfl, rfl⟩
  · -- The inverse of `2 ^ 18` modulo 25 is 4.
    obtain ⟨c, residue⟩ : ∃ c : ℤ, n + 48 = 25 * c := ⟨4 * units - 41943 * n, by norm_num at last; linarith⟩
    left
    norm_num at last more
    omega
  · -- The inverse of `2 ^ 28` modulo 25 is 21.
    obtain ⟨c, residue⟩ : ∃ c : ℤ, n + 252 = 25 * c := ⟨21 * units - 225485783 * n, by norm_num at last; linarith⟩
    right
    norm_num at last more
    omega

theorem two_mul_le {n low high : ℕ} (less : low < high) : 2 * (n * 2 ^ low) ≤ n * 2 ^ high :=
  calc 2 * (n * 2 ^ low) = n * 2 ^ (low + 1) := by ring
    _ ≤ n * 2 ^ high := Nat.mul_le_mul_left _ (Nat.pow_le_pow_right (by decide) less)

/-- The last binary place of a double is given by the amount that it is nearest to. -/
theorem places_eq {units n places : ℕ} (place : ℕ) (full : 2 ^ 52 ≤ units) (lt : units < 2 ^ 53)
    (small : |remainder units n (places + 2)| ≤ 12) (low : 25 * 2 ^ 52 ≤ n * 2 ^ place)
    (high : n * 2 ^ place ≤ 50 * 2 ^ 52 - 26) : places = place := by
  have cast : (n : ℤ) * 2 ^ places = (n * 2 ^ places : ℕ) := by push_cast; rfl
  rw [remainder, Nat.add_sub_cancel, cast, abs_le] at small
  rcases Nat.lt_trichotomy places place with coarse | same | fine
  · have := two_mul_le (n := n) coarse
    omega
  · exact same
  · have := two_mul_le (n := n) fine
    omega

/-- The double of an amount that drifts is twelve twenty-fifths of a unit above it. -/
theorem remainder_of_drifts {places : ℕ} (drifts : Drifts k) (near : IsClose x k.natAbs places) :
    remainder (significand x) k.natAbs places = 12 ∧
      ∃ scale, AlmostMeet places scale ∧ k.natAbs * 10 ^ (scale - 2) < 2 ^ 52 - 4 := by
  obtain ⟨full, lt, -, least, -, close⟩ := near
  have small := abs_remainder_le (by omega) close
  unfold Drifts at drifts
  generalize k.natAbs = n at *
  obtain ⟨more, rfl⟩ : ∃ more, places = more + 2 := ⟨places - 2, by omega⟩
  rcases drifts with ⟨residue, low, high⟩ | ⟨residue, low, high⟩
  · obtain rfl := places_eq 18 full lt small (by omega) (by omega)
    refine ⟨?_, 6, .inl ⟨rfl, rfl⟩, by omega⟩
    unfold remainder at small ⊢
    obtain ⟨a, rfl⟩ : ∃ a, n = 25 * a + 2 := ⟨n / 25, by omega⟩
    norm_num at small ⊢
    rw [abs_le] at small
    omega
  · obtain rfl := places_eq 28 full lt small (by omega) (by omega)
    refine ⟨?_, 9, .inr ⟨rfl, rfl⟩, by omega⟩
    unfold remainder at small ⊢
    obtain ⟨a, rfl⟩ : ∃ a, n = 25 * a + 23 := ⟨n / 25, by omega⟩
    norm_num at small ⊢
    rw [abs_le] at small
    omega

theorem exists_cut_of_close {places : ℕ} (finite : x.isFinite = true) (near : IsClose x n places) :
    ∃ left scale dropped, Cut (significand x / 2 ^ places) left scale dropped ∧
      ofFloat? x = some { negative := isNegative x, units := (trimZeros scale ⟨left, -scale⟩).units
                          scale := (-(trimZeros scale ⟨left, -scale⟩).power).toNat } := by
  obtain ⟨full, lt, exponent_eq, -, most, -⟩ := near
  have large : 1 / 10 ^ 27 ≤ (significand x : ℚ) / 2 ^ places := by
    rw [div_le_div_iff₀ (by positivity) (by positivity)]
    calc (1 : ℚ) * 2 ^ places ≤ 1 * 2 ^ 59 := by
          gcongr
          norm_num
      _ ≤ 2 ^ 52 * 10 ^ 27 := by norm_num
      _ ≤ significand x * 10 ^ 27 := by
          gcongr
          exact_mod_cast full
  obtain ⟨left, scale, dropped, converted, cut⟩ := exists_cut (by unfold bound; omega) (by omega) large
  refine ⟨left, scale, dropped, cut, ?_⟩
  rw [ofFloat?_eq finite (by omega), exponent_eq, converted, Option.map_some]

/-- A double that is nearest to an amount is that amount as a decimal, unless the amount drifts. -/
theorem ofFloat?_of_amount (few : k.natAbs ≤ 10 ^ 12) (steady : ¬ Drifts k) (near : IsNearest x (k / 100)) :
    ∃ d, ofFloat? x = some d ∧ d.IsAmount k := by
  rcases eq_or_ne k 0 with rfl | nonzero
  · have none : significand x = 0 := by
      have zero := abs_value x
      rw [Int.cast_zero, zero_div] at near
      rw [value_eq_zero near, abs_zero, magnitude, zero_eq_mul] at zero
      exact_mod_cast zero.resolve_right (by positivity)
    refine ⟨⟨isNegative x, 0, 0⟩, ?_, Nat.zero_le _, ?_⟩
    · rw [ofFloat?, near.finite, if_neg (by decide), if_pos none]
    · simp [unitsAt]
  · obtain ⟨sign, places, parts⟩ := isClose_of_amount nonzero few near
    obtain ⟨left, scale, dropped, cut, converted⟩ := exists_cut_of_close near.finite parts
    have exact : left * 100 = k.natAbs * 10 ^ scale := by
      refine (cut.hundredths parts.full parts.lt parts.least parts.most few parts.close).resolve_right ?_
      rintro ⟨more, digits, pair, last⟩
      exact steady (drifts_of_remainder parts.full digits more pair last)
    obtain ⟨short, le, power, units⟩ := trimZeros_of_hundredths exact
    have short_eq : (-(-(short : ℤ))).toNat = short := by omega
    refine ⟨_, converted, ?_, ?_⟩
    · show (-(trimZeros scale _).power).toNat ≤ 2
      rwa [power, short_eq]
    · show (if isNegative x then _ else _) = k
      rw [power, short_eq, units, sign]
      by_cases negative : k < 0
      · rw [decide_eq_true negative, if_pos rfl]
        omega
      · rw [decide_eq_false negative, if_neg (by decide)]
        omega

/-- An amount that drifts is one unit more as a decimal. -/
theorem ofFloat?_of_drifts {places : ℕ} (few : k.natAbs ≤ 10 ^ 12) (drifts : Drifts k) (finite : x.isFinite = true)
    (near : IsClose x k.natAbs places) :
    ∃ d, ofFloat? x = some d ∧ d.negative = isNegative x ∧ d.units < 2 ^ 52 ∧
      d.units * 100 = k.natAbs * 10 ^ d.scale + 100 ∧ AlmostMeet places d.scale := by
  obtain ⟨left, scale, dropped, cut, converted⟩ := exists_cut_of_close finite near
  obtain ⟨last, more, pair, size⟩ := remainder_of_drifts drifts near
  have either := cut.hundredths near.full near.lt near.least near.most few near.close
  obtain ⟨rfl, above⟩ := cut.hundredths_off near.lt size pair last
    (either.imp id fun other => ⟨other.1, other.2.2.1⟩)
  have digits : left < 2 ^ 52 ∧ left % 10 ≠ 0 := by
    rcases pair with ⟨-, rfl⟩ | ⟨-, rfl⟩ <;> omega
  rw [trimZeros_of_digit digits.2] at converted
  have scale_eq : (-(-(scale : ℤ))).toNat = scale := by omega
  refine ⟨_, converted, rfl, digits.1, ?_, ?_⟩
  · show left * 100 = k.natAbs * 10 ^ (-(-(scale : ℤ))).toNat + 100
    rw [scale_eq, above]
  · show AlmostMeet places (-(-(scale : ℤ))).toNat
    rwa [scale_eq]

/-! ## Addition -/

theorem isAmount_iff {d : Decimal} : d.IsAmount k ↔ d.HasUnits 2 k :=
  ⟨fun ⟨short, same⟩ => ⟨short, same⟩, fun ⟨short, same⟩ => ⟨short, same⟩⟩

/-- The total of doubles nearest to amounts that do not drift is the sum of the amounts. -/
theorem decimalTotal_of_amounts {total : Decimal} {xs : List Float} {ks : List ℤ}
    (nearest : List.Forall₂ (fun x (k : ℤ) => IsNearest x (k / 100)) xs ks) (steady : ∀ k ∈ ks, ¬ Drifts k)
    (start : total.IsAmount k) (few : k.natAbs + (ks.map Int.natAbs).sum ≤ 10 ^ 12) :
    ∃ d, decimalTotal total xs = some d ∧ d.IsAmount (k + ks.sum) := by
  have converted : List.Forall₂ (fun x k => ∃ d, ofFloat? x = some d ∧ d.HasUnits 2 k) xs ks := by
    refine List.forall₂_iff_zip.mpr ⟨nearest.length_eq, fun {x k} mem => ?_⟩
    obtain ⟨-, among⟩ := List.of_mem_zip mem
    have least : k.natAbs ≤ (ks.map Int.natAbs).sum := List.single_le_sum (by simp) _ (List.mem_map_of_mem among)
    obtain ⟨d, converted, amount⟩ :=
      ofFloat?_of_amount (by omega) (steady k among) ((List.forall₂_iff_zip.mp nearest).2 mem)
    exact ⟨d, converted, isAmount_iff.mp amount⟩
  have fits : k.natAbs + (ks.map Int.natAbs).sum < bound := by
    unfold bound
    omega
  obtain ⟨d, summed, units⟩ := decimalTotal_of_units converted (isAmount_iff.mp start) fits
  exact ⟨d, summed, isAmount_iff.mpr units⟩

end AmountsLemmas

end RecordFormula.Number
