import RecordFormula.Proofs.Doubles

/-!
# Rounded operations

The model of floating-point arithmetic works on a mantissa and two more bits: one for the half and one for
whatever comes below it. A shift to the right moves the mantissa into these bits, and at the end they decide
whether the mantissa is rounded up. The operations of doubles are exact up to this rounding.

Results:
1. `Represents.shiftRight` and `Represents.close`: what the mantissa and its bits say stays true when they are
   shifted, and the mantissa is rounded to a nearest whole number.
2. `exists_rounded`: so the model rounds numbers that are not too large.
3. `rounds_add`: the sum of two doubles is the exact sum rounded.
4. `roundsTo_add`, `roundsTo_mul`, `roundsTo_div`: a sum, a product and a quotient of doubles without a sign
   are the exact results rounded.
5. `ofNat_exact`, `roundsTo_ofNat_of_le`: a whole number below `2 ^ 53` is a double, and a larger one is rounded.
-/

namespace RecordFormula.Number

open Float.Model Float.Model.UnpackedFloat DoublesLemmas

/-! ## Mantissas with two bits more -/

namespace RoundingLemmas

variable {x y : Float} {q a : ℚ} {em : ExtendedMantissa}

/-- What a mantissa and its two bits say of the number that they stand for. -/
inductive Represents : ExtendedMantissa → ℚ → Prop where
  /-- There is nothing behind the mantissa. -/
  | exact {units : ℕ} : Represents ⟨units, false, false⟩ units
  /-- There is less than a half behind it. -/
  | below {units : ℕ} {a : ℚ} : (units : ℚ) < a → a < units + 1 / 2 → Represents ⟨units, false, true⟩ a
  /-- There is a half behind it. -/
  | half {units : ℕ} : Represents ⟨units, true, false⟩ (units + 1 / 2)
  /-- There is more than a half behind it. -/
  | above {units : ℕ} {a : ℚ} : (units : ℚ) + 1 / 2 < a → a < units + 1 → Represents ⟨units, true, true⟩ a

theorem Represents.mantissa_le (represents : Represents em a) : (em.mantissa : ℚ) ≤ a := by
  cases represents with
  | exact => exact le_refl _
  | below more => exact more.le
  | half => simp
  | above more => linarith

theorem Represents.lt_succ (represents : Represents em a) : a < em.mantissa + 1 := by
  cases represents with
  | exact => simp
  | below _ less => linarith
  | half => show _ + _ < _ + _; norm_num
  | above _ less => exact less

/-- Rounding goes to a nearest whole number. -/
theorem Represents.close (represents : Represents em a) : |(em.roundedMantissa : ℚ) - a| ≤ 1 / 2 := by
  cases represents with
  | exact => simp [ExtendedMantissa.roundedMantissa, ExtendedMantissa.accuracy, Accuracy.roundToNearestEven]
  | @below units _ more less =>
    show |(units : ℚ) - a| ≤ 1 / 2
    rw [abs_sub_comm, abs_of_pos (by linarith)]
    linarith
  | @half units =>
    show |((units + units % 2 : ℕ) : ℚ) - (units + 1 / 2)| ≤ 1 / 2
    rcases Nat.mod_two_eq_zero_or_one units with even | odd
    · rw [even]
      norm_num [abs_le]
    · rw [odd]
      push_cast
      norm_num [abs_le]
  | @above units _ more less =>
    show |((units + 1 : ℕ) : ℚ) - a| ≤ 1 / 2
    push_cast
    rw [abs_of_pos (by linarith)]
    linarith

theorem roundedMantissa_bounds (em : ExtendedMantissa) :
    em.mantissa ≤ em.roundedMantissa ∧ em.roundedMantissa ≤ em.mantissa + 1 := by
  obtain ⟨units, _ | _, _ | _⟩ := em <;>
    simp only [ExtendedMantissa.roundedMantissa, ExtendedMantissa.accuracy, Accuracy.roundToNearestEven] <;> omega

/-- A shift makes the last bit of the mantissa the first of the two bits. -/
theorem shiftRightOne_eq (half : ℕ) (odd first second : Bool) :
    (⟨2 * half + odd.toNat, first, second⟩ : ExtendedMantissa).shiftRightOne = ⟨half, odd, first || second⟩ := by
  cases odd <;> simp [ExtendedMantissa.shiftRightOne, Nat.add_div]

theorem Represents.shiftRightOne (represents : Represents em a) : Represents em.shiftRightOne (a / 2) := by
  have parts (units : ℕ) : ∃ (half : ℕ) (odd : Bool), units = 2 * half + odd.toNat := by
    rcases Nat.even_or_odd' units with ⟨half, even | odd⟩
    · exact ⟨half, false, even⟩
    · exact ⟨half, true, odd⟩
  cases represents with
  | @exact units =>
    obtain ⟨half, odd, rfl⟩ := parts units
    rw [shiftRightOne_eq]
    cases odd
    · have same : ((2 * half + false.toNat : ℕ) : ℚ) / 2 = half := by simp
      rw [same]
      exact .exact
    · have same : ((2 * half + true.toNat : ℕ) : ℚ) / 2 = half + 1 / 2 := by
        push_cast [Bool.toNat_true]
        ring
      rw [same]
      exact .half
  | @below units a more less =>
    obtain ⟨half, odd, rfl⟩ := parts units
    rw [shiftRightOne_eq]
    cases odd <;> push_cast [Bool.toNat_true, Bool.toNat_false] at more less
    · exact .below (by linarith) (by linarith)
    · exact .above (by linarith) (by linarith)
  | @half units =>
    obtain ⟨half, odd, rfl⟩ := parts units
    rw [shiftRightOne_eq]
    cases odd <;> push_cast [Bool.toNat_true, Bool.toNat_false]
    · exact .below (by linarith) (by linarith)
    · exact .above (by linarith) (by linarith)
  | @above units a more less =>
    obtain ⟨half, odd, rfl⟩ := parts units
    rw [shiftRightOne_eq]
    cases odd <;> push_cast [Bool.toNat_true, Bool.toNat_false] at more less
    · exact .below (by linarith) (by linarith)
    · exact .above (by linarith) (by linarith)

theorem Represents.shiftRight (represents : Represents em a) (count : ℕ) :
    Represents (em >>> count) (a / 2 ^ count) := by
  induction count with
  | zero => rwa [pow_zero, div_one]
  | succ count ih =>
    have next := ih.shiftRightOne
    rwa [div_div, ← pow_succ] at next

/-! ## Rounding a number -/

end RoundingLemmas

/-- Half a unit of the last place behind the largest double. From here on a number is rounded to infinity. -/
def overflow : ℚ := (2 ^ 54 - 1) * 2 ^ (970 : ℤ)

theorem lt_overflow {q : ℚ} {e : ℕ} (small : q < 2 ^ e) (high : e ≤ 970) : q < overflow :=
  calc q < 2 ^ (e : ℤ) := by rwa [zpow_natCast]
    _ ≤ 2 ^ (970 : ℤ) := zpow_le_zpow_right₀ (by norm_num) (by omega)
    _ ≤ overflow := le_mul_of_one_le_left (by positivity) (by norm_num)

namespace RoundingLemmas

variable {x y : Float} {q a : ℚ} {em : ExtendedMantissa}

/-- A number is rounded to 53 bits, or to the least exponent if that is larger. -/
theorem targetExponent_eq (total : ℤ) : Format.binary64.targetExponent total = max (total - 53) (-1074) := rfl

theorem targetExponent_totalExponent (units : ℕ) (e : ℤ) :
    Format.binary64.targetExponent (totalExponent units e) = max (units.log2 + e - 52) (-1074) := by
  rw [targetExponent_eq, totalExponent]
  congr 1
  ring

/-- Rounding may carry into one more bit, which the second shift takes off again. -/
theorem exists_shift_again {units : ℕ} {e : ℤ} (few : units ≤ 2 ^ 53) (low : -1074 ≤ e) (high : e ≤ 971)
    (room : units = 2 ^ 53 → e ≤ 970) (full : 2 ^ 52 ≤ units ∨ e = -1074) :
    ∃ final e', shiftToTargetExponent .binary64 units e .exact = (final, e') ∧ Canonical final.mantissa e' ∧
      (final.mantissa : ℚ) * 2 ^ e' = units * 2 ^ e := by
  rw [shiftToTargetExponent, targetExponent_totalExponent, shiftToExponent]
  rcases Nat.eq_or_lt_of_le few with rfl | few
  · have log : (2 ^ 53).log2 = 53 := by rw [Nat.log2_two_pow]
    have one : (max (((2 ^ 53).log2 : ℕ) + e - 52) (-1074) - e).toNat = 1 := by
      rw [log]
      omega
    replace room := room rfl
    rw [one]
    refine ⟨_, _, rfl, ⟨?_, ?_, ?_, ?_⟩, ?_⟩
    · show 2 ^ 53 / 2 < 2 ^ 53
      decide
    · omega
    · omega
    · exact .inl (by show 2 ^ 52 ≤ 2 ^ 53 / 2; decide)
    · show ((2 ^ 53 / 2 : ℕ) : ℚ) * _ = _
      rw [zpow_add₀ two_ne_zero]
      push_cast
      ring
  · have log : units.log2 < 53 := by
      rcases Nat.eq_zero_or_pos units with rfl | positive
      · decide
      · exact (Nat.log2_lt positive.ne').mpr few
    have none : (max ((units.log2 : ℕ) + e - 52) (-1074) - e).toNat = 0 := by omega
    rw [none]
    refine ⟨_, _, rfl, ⟨few, ?_, ?_, ?_⟩, ?_⟩
    · omega
    · omega
    · exact full.imp id fun least => by omega
    · show (units : ℚ) * 2 ^ (e + 0) = _
      rw [add_zero]

/-- The shift before rounding leaves 53 bits or the least exponent. -/
theorem bounds_of_shift {units count : ℕ} {e target : ℤ} (least : (units : ℚ) ≤ a) (next : a < units + 1)
    (target_eq : target = max (units.log2 + e - 52) (-1074)) (shifted : target = e + count) :
    a / 2 ^ count < 2 ^ 53 ∧ (target = -1074 ∨ 2 ^ 52 ≤ a / 2 ^ count) := by
  have power : (0 : ℚ) < 2 ^ count := by positivity
  constructor
  · rw [div_lt_iff₀ power]
    calc a < (units + 1 : ℕ) := by exact_mod_cast next
      _ ≤ (2 ^ (units.log2 + 1) : ℕ) := by exact_mod_cast Nat.lt_log2_self
      _ ≤ (2 ^ (53 + count) : ℕ) := by
        exact_mod_cast Nat.pow_le_pow_right (by decide) (by omega)
      _ = 2 ^ 53 * 2 ^ count := by
        push_cast
        rw [pow_add]
  · refine or_iff_not_imp_left.mpr fun above => ?_
    have positive : units ≠ 0 := by
      rintro rfl
      rw [Nat.log2_zero] at target_eq
      omega
    rw [le_div_iff₀ power]
    calc (2 : ℚ) ^ 52 * 2 ^ count = (2 ^ (52 + count) : ℕ) := by
          push_cast
          rw [pow_add]
      _ = (2 ^ units.log2 : ℕ) := by
        congr 2
        omega
      _ ≤ units := by exact_mod_cast Nat.log2_self_le positive
      _ ≤ a := least

theorem exponent_le_of_lt {e : ℤ} (full : 2 ^ 52 * 2 ^ e ≤ q) (small : q < overflow) : e ≤ 971 := by
  have power : (2 : ℚ) ^ (52 + e) < 2 ^ (1024 : ℤ) := by
    rw [zpow_add₀ two_ne_zero]
    refine lt_of_le_of_lt (by exact_mod_cast full) (small.trans ?_)
    calc overflow < 2 ^ (54 : ℤ) * 2 ^ (970 : ℤ) := by
          refine mul_lt_mul_of_pos_right ?_ (by positivity)
          norm_num
      _ = 2 ^ (1024 : ℤ) := (zpow_add₀ two_ne_zero 54 970).symm
  have := (zpow_lt_zpow_iff_right₀ one_lt_two).mp power
  omega

/-- Nothing is carried beyond the largest double. -/
theorem lt_of_lt_overflow {units : ℕ} (near : |(units : ℚ) - a| ≤ 1 / 2) (small : a * 2 ^ (971 : ℤ) < overflow) :
    units < 2 ^ 53 := by
  have below : a * 2 ^ (971 : ℤ) < (2 ^ 53 - 1 / 2) * 2 ^ (971 : ℤ) :=
    calc a * 2 ^ (971 : ℤ) < (2 ^ 54 - 1) * 2 ^ (970 : ℤ) := small
      _ = (2 ^ 53 - 1 / 2) * (2 ^ (970 : ℤ) * 2) := by ring
      _ = (2 ^ 53 - 1 / 2) * 2 ^ (971 : ℤ) := by rw [← zpow_add_one₀ two_ne_zero]; rfl
  have less := lt_of_mul_lt_mul_right below (by positivity)
  have := (abs_le.mp near).2
  have : (units : ℚ) < 2 ^ 53 := by linarith
  exact_mod_cast this

/-- The first shift leaves a number of 53 bits, or of the least exponent. -/
theorem exists_shift {units : ℕ} {e : ℤ} {accuracy : Accuracy}
    (represents : Represents (.ofMantissaAndAccuracy units accuracy) a)
    (fits : e ≤ max (units.log2 + e - 52) (-1074)) :
    ∃ em target shifted, shiftToTargetExponent .binary64 units e accuracy = (em, target) ∧ Represents em shifted ∧
      a * 2 ^ e = shifted * 2 ^ target ∧ -1074 ≤ target ∧ shifted < 2 ^ 53 ∧ (target = -1074 ∨ 2 ^ 52 ≤ shifted) := by
  obtain ⟨target, target_eq⟩ : ∃ target, target = max (units.log2 + e - 52) (-1074) := ⟨_, rfl⟩
  obtain ⟨count, shifted⟩ : ∃ count : ℕ, target = e + count := ⟨(target - e).toNat, by omega⟩
  have mantissa : (ExtendedMantissa.ofMantissaAndAccuracy units accuracy).mantissa = units := by
    rcases accuracy with _ | _ | _ | _ <;> rfl
  have least := represents.mantissa_le
  have next := represents.lt_succ
  rw [mantissa] at least next
  obtain ⟨few, full⟩ := bounds_of_shift least next target_eq shifted
  refine ⟨_, target, _, ?_, represents.shiftRight count, ?_, by omega, few, full⟩
  · have steps : (target - e).toNat = count := by omega
    rw [shiftToTargetExponent, targetExponent_totalExponent, ← target_eq, shiftToExponent, steps, shifted]
  · rw [shifted, zpow_add₀ two_ne_zero, zpow_natCast]
    field_simp

/-- What the model rounds is the number that its mantissa and its accuracy stand for. -/
theorem exists_rounded {units : ℕ} {e : ℤ} {accuracy : Accuracy} {s : Sign}
    (represents : Represents (.ofMantissaAndAccuracy units accuracy) a)
    (fits : e ≤ max (units.log2 + e - 52) (-1074)) (small : a * 2 ^ e < overflow)
    (made : x = .ofModel (.pack (roundWithAccuracy .binary64 s units e accuracy))) :
    x.isFinite = true ∧ sign x = s ∧ IsRounded (magnitude x) (a * 2 ^ e) := by
  obtain ⟨em, target, shifted, first, represents', scaled, low, few, full⟩ := exists_shift represents fits
  have bounds := roundedMantissa_bounds em
  have high : target ≤ 971 := by
    rcases full with least | full
    · omega
    · refine exponent_le_of_lt ?_ small
      rw [scaled]
      gcongr
  have mantissa_lt : em.mantissa < 2 ^ 53 := by
    exact_mod_cast represents'.mantissa_le.trans_lt few
  have mantissa_full : 2 ^ 52 ≤ em.roundedMantissa ∨ target = -1074 := by
    refine full.symm.imp (fun full => ?_) id
    have : (2 ^ 52 : ℕ) < em.mantissa + 1 := by exact_mod_cast full.trans_lt represents'.lt_succ
    omega
  have room (carried : em.roundedMantissa = 2 ^ 53) : target ≤ 970 := by
    by_contra top
    obtain rfl : target = 971 := by omega
    have := lt_of_lt_overflow represents'.close (scaled ▸ small)
    omega
  obtain ⟨final, e', again, canonical, same⟩ :=
    @exists_shift_again em.roundedMantissa target (by omega) low high room mantissa_full
  have rounded : IsRounded (em.roundedMantissa * 2 ^ target) (a * 2 ^ e) := by
    have power : (0 : ℚ) < 2 ^ target := by positivity
    refine ⟨_, _, rfl, ?_, low, full.imp id fun full => ?_, ?_⟩
    · rw [scaled, ← sub_mul, abs_mul, abs_of_pos power]
      have close := represents'.close
      nlinarith
    · rw [scaled]
      gcongr
    · rw [scaled]
      gcongr
  unfold roundWithAccuracy at made
  simp only [first, again] at made
  split at made
  · rename_i none
    obtain ⟨finite, units, -, signs⟩ := parts_of_zero made
    refine ⟨finite, signs, ?_⟩
    rwa [magnitude, units, Nat.cast_zero, zero_mul, ← zero_mul ((2 : ℚ) ^ e'), ← Nat.cast_zero, ← none, same]
  · obtain ⟨finite, units, e, signs⟩ := parts_of_pack _ canonical made
    exact ⟨finite, signs, by rwa [magnitude, units, e, same]⟩

theorem isFinite_notANumber : (Float.ofModel (.pack .notANumber)).isFinite = false := by decide +kernel

theorem isFinite_infinity (s : Sign) : (Float.ofModel (.pack (.infinity s))).isFinite = false := by
  cases s <;> decide +kernel

/-- What is too large for the exponents of doubles is packed as infinity. -/
theorem isFinite_of_high {s : Sign} {units : ℕ} {e : ℤ} {positive : 0 < units} (high : 972 ≤ e) :
    (Float.ofModel (.pack (.finite s units e positive))).isFinite = false := by
  have bias :
      ((Format.binary64.exponentBias : Nat) : Int) + Format.binary64.mantissaBitsWithoutImplicit = 1075 := rfl
  have field : (e + Format.binary64.exponentBias + Format.binary64.mantissaBitsWithoutImplicit).toNat =
      (e + 1075).toNat := by rw [Int.add_assoc, bias]
  have packed : UnpackedFloat.pack .binary64 (.finite s units e positive) =
      UnpackedFloat.pack .binary64 (.infinity s) := by
    unfold UnpackedFloat.pack
    simp only [field]
    exact if_pos (by show 2 ^ 11 ≤ (e + 1075).toNat + 1; omega)
  have same : Float.Model.pack (.finite s units e positive) = .pack (.infinity s) := by
    unfold Float.Model.pack
    simp only [packed]
  rw [same]
  exact isFinite_infinity s

/-- A mantissa that is not below where doubles end is rounded up to one more bit. -/
theorem Represents.le_roundedMantissa (represents : Represents em a) (large : 2 ^ 53 - 1 / 2 ≤ a) :
    2 ^ 53 ≤ em.roundedMantissa := by
  have cast {units : ℕ} (less : (2 : ℚ) ^ 53 < units + 1) : 2 ^ 53 ≤ units := by
    have : 2 ^ 53 < units + 1 := by exact_mod_cast less
    omega
  cases represents with
  | @exact units =>
    show 2 ^ 53 ≤ units
    exact cast (by linarith)
  | @below units _ _ less =>
    show 2 ^ 53 ≤ units
    exact cast (by linarith)
  | @half units =>
    show 2 ^ 53 ≤ units + units % 2
    have : (2 : ℚ) ^ 53 ≤ units + 1 := by linarith
    have : 2 ^ 53 ≤ units + 1 := by exact_mod_cast this
    omega
  | @above units _ _ less =>
    show 2 ^ 53 ≤ units + 1
    exact cast (by push_cast; linarith)

theorem bounds_of_bits {units : ℕ} {target : ℤ} {final : ExtendedMantissa × ℤ} (positive : 0 < units)
    (final_eq : final = shiftToTargetExponent .binary64 units target .exact) (high : 972 ≤ units.log2 + target - 52)
    (bits : 52 ≤ units.log2) : 972 ≤ final.2 ∧ 0 < final.1.mantissa := by
  obtain ⟨count, count_eq⟩ : ∃ count, count = (max (units.log2 + target - 52) (-1074) - target).toNat := ⟨_, rfl⟩
  rw [shiftToTargetExponent, targetExponent_totalExponent, shiftToExponent, ← count_eq] at final_eq
  have represents : Represents final.1 (units / 2 ^ count) := by
    rw [final_eq]
    exact Represents.exact.shiftRight count
  have one_le : (1 : ℚ) ≤ units / 2 ^ count := by
    rw [one_le_div (by positivity)]
    have : 2 ^ count ≤ units :=
      (Nat.pow_le_pow_right (by decide) (by omega)).trans (Nat.log2_self_le positive.ne')
    exact_mod_cast this
  constructor
  · have : final.2 = target + count := by rw [final_eq]
    omega
  · have less := represents.lt_succ
    have : (0 : ℚ) < final.1.mantissa := by linarith
    exact_mod_cast this

/-- A number that is not below where doubles end is rounded to infinity. -/
theorem isFinite_of_overflow {units : ℕ} {e : ℤ} {accuracy : Accuracy} {s : Sign}
    (represents : Represents (.ofMantissaAndAccuracy units accuracy) a)
    (fits : e ≤ max (units.log2 + e - 52) (-1074)) (large : overflow ≤ a * 2 ^ e) :
    (Float.ofModel (.pack (roundWithAccuracy .binary64 s units e accuracy))).isFinite = false := by
  obtain ⟨em, target, shifted, first, represents', scaled, low, few, full⟩ := exists_shift represents fits
  have bounds := roundedMantissa_bounds em
  have power : (0 : ℚ) < 2 ^ (970 : ℤ) := by positivity
  have top : 971 ≤ target := by
    by_contra low
    have less : shifted * 2 ^ target < overflow :=
      calc shifted * 2 ^ target ≤ 2 ^ 53 * 2 ^ (970 : ℤ) :=
            mul_le_mul few.le (zpow_le_zpow_right₀ (by norm_num) (by omega)) (by positivity) (by norm_num)
        _ < overflow := mul_lt_mul_of_pos_right (by norm_num) power
    rw [scaled] at large
    exact absurd less (not_lt_of_ge large)
  have some : 2 ^ 52 ≤ em.roundedMantissa := by
    have := full.resolve_left (by omega)
    have : (2 ^ 52 : ℕ) < em.mantissa + 1 := by exact_mod_cast this.trans_lt represents'.lt_succ
    omega
  have bits := (Nat.le_log2 (by omega)).mpr some
  have high : 972 ≤ em.roundedMantissa.log2 + target - 52 := by
    rcases Int.lt_or_eq_of_le top with above | rfl
    · omega
    · have large : 2 ^ 53 - 1 / 2 ≤ shifted := by
        refine le_of_mul_le_mul_right ?_ power
        rw [scaled, show (971 : ℤ) = 970 + 1 by norm_num, zpow_add_one₀ two_ne_zero] at large
        unfold overflow at large
        linarith
      have := (Nat.le_log2 (by omega)).mpr (represents'.le_roundedMantissa large)
      omega
  obtain ⟨final, final_eq⟩ : ∃ final, final = shiftToTargetExponent .binary64 em.roundedMantissa target .exact :=
    ⟨_, rfl⟩
  obtain ⟨high, some⟩ := bounds_of_bits (by omega) final_eq high bits
  unfold roundWithAccuracy
  simp only [first, ← final_eq]
  rw [dif_neg some.ne']
  exact isFinite_of_high high

theorem roundsTo_of_rounded {s : Sign} (signed : s = .positive)
    (parts : x.isFinite = true ∧ sign x = s ∧ IsRounded (magnitude x) q) : RoundsTo x q := by
  obtain ⟨finite, signs, rounded⟩ := parts
  exact ⟨finite, by rw [isNegative_of_sign signs, signed]; rfl, rounded⟩

theorem roundsTo_of_units {units : ℕ} {e : ℤ} (fits : e ≤ max (units.log2 + e - 52) (-1074))
    (small : (units : ℚ) * 2 ^ e < overflow) :
    RoundsTo (.ofModel (.pack (roundWithAccuracy .binary64 .positive units e .exact))) (units * 2 ^ e) :=
  roundsTo_of_rounded rfl (@exists_rounded _ _ units e .exact _ .exact fits small rfl)

theorem isRounded_zero : IsRounded 0 0 :=
  ⟨0, -1074, by rw [Nat.cast_zero, zero_mul], by rw [Nat.cast_zero, zero_mul, sub_zero, abs_zero]; positivity,
    le_refl _, .inl rfl, by positivity⟩

theorem rounds_zero {s : UnpackedFloat.Sign} (made : x = .ofModel (.pack (.zero s))) : Rounds x 0 := by
  obtain ⟨finite, units, -, -⟩ := parts_of_zero made
  refine ⟨finite, ?_, fun _ => le_refl _, fun _ => le_refl _⟩
  rw [magnitude, units, Nat.cast_zero, zero_mul, abs_zero]
  exact isRounded_zero

theorem roundsTo_zero : RoundsTo (.ofModel (.pack (.zero .positive))) 0 := by
  obtain ⟨-, -, -, signs⟩ := parts_of_zero (s := .positive) rfl
  exact (rounds_zero rfl).roundsTo (isNegative_of_sign signs)

theorem log2_shiftLeft {units : ℕ} (positive : 0 < units) (count : ℕ) :
    (units <<< count).log2 = units.log2 + count := by
  rw [Nat.shiftLeft_eq, Nat.log2_eq_iff (by positivity), Nat.add_right_comm, pow_add, pow_add]
  exact ⟨Nat.mul_le_mul_right _ (Nat.log2_self_le positive.ne'),
    Nat.mul_lt_mul_of_pos_right Nat.lt_log2_self (by positivity)⟩

/-- Units are shifted to the left when they have room, so that they do not change, and rounded then. -/
theorem exists_round (s : Sign) {units : ℕ} (e : ℤ) (positive : 0 < units) :
    ∃ units' e', UnpackedFloat.round .binary64 s units e = roundWithAccuracy .binary64 s units' e' .exact ∧
      (units' : ℚ) * 2 ^ e' = units * 2 ^ e ∧ e' ≤ max (units'.log2 + e' - 52) (-1074) := by
  obtain ⟨target, target_eq⟩ : ∃ target, target = max (units.log2 + e - 52) (-1074) := ⟨_, rfl⟩
  let count := (e - target).toNat
  refine ⟨units <<< count, e - count, ?_, ?_, ?_⟩
  · rw [UnpackedFloat.round, targetExponent_totalExponent, ← target_eq]
    rfl
  · rw [Nat.shiftLeft_eq, zpow_sub₀ two_ne_zero, zpow_natCast]
    push_cast
    field_simp
  · rw [log2_shiftLeft positive]
    omega

theorem parts_of_round {s : UnpackedFloat.Sign} {units : ℕ} {e : ℤ} (positive : 0 < units)
    (small : (units : ℚ) * 2 ^ e < overflow)
    (made : x = .ofModel (.pack (UnpackedFloat.round .binary64 s units e))) :
    x.isFinite = true ∧ sign x = s ∧ IsRounded (magnitude x) (units * 2 ^ e) := by
  obtain ⟨units', e', same, scaled, fits⟩ := exists_round s e positive
  rw [same] at made
  rw [← scaled] at small ⊢
  exact @exists_rounded _ _ units' e' .exact _ .exact fits small made

theorem rounds_normalize {units : ℤ} {e : ℤ} (small : |(units : ℚ) * 2 ^ e| < overflow)
    (made : x = .ofModel (.pack (UnpackedFloat.normalize .binary64 units e .positive))) :
    Rounds x (units * 2 ^ e) ∧ (0 ≤ units → isNegative x = false) := by
  have size : |(units : ℚ) * 2 ^ e| = units.natAbs * 2 ^ e := by
    rw [abs_mul, abs_of_pos (by positivity : (0 : ℚ) < 2 ^ e), Nat.cast_natAbs, Int.cast_abs]
  rw [size] at small
  rw [UnpackedFloat.normalize] at made
  rcases lt_trichotomy units 0 with negative | rfl | positive
  · have below : (units : ℚ) * 2 ^ e ≤ 0 :=
      mul_nonpos_of_nonpos_of_nonneg (by exact_mod_cast negative.le) (by positivity)
    rw [Int.compare_eq_lt.mpr negative] at made
    have toNat : (-units).toNat = units.natAbs := by omega
    obtain ⟨finite, signs, rounded⟩ := parts_of_round (by omega) (toNat ▸ small) made
    rw [toNat, ← size] at rounded
    have signed := isNegative_of_sign signs
    exact ⟨⟨finite, rounded, fun unsigned => absurd (signed.symm.trans unsigned) (by decide), fun _ => below⟩,
      fun nonneg => absurd nonneg (not_le_of_gt negative)⟩
  · rw [Int.compare_eq_eq.mpr rfl] at made
    rw [Int.cast_zero, zero_mul]
    obtain ⟨-, -, -, signs⟩ := parts_of_zero made
    exact ⟨rounds_zero made, fun _ => isNegative_of_sign signs⟩
  · have above : 0 ≤ (units : ℚ) * 2 ^ e := mul_nonneg (by exact_mod_cast positive.le) (by positivity)
    rw [Int.compare_eq_gt.mpr positive] at made
    have toNat : units.toNat = units.natAbs := by omega
    obtain ⟨finite, signs, rounded⟩ := parts_of_round (by omega) (toNat ▸ small) made
    rw [toNat, ← size] at rounded
    have unsigned := isNegative_of_sign signs
    exact ⟨⟨finite, rounded, fun _ => above, fun signed => absurd (unsigned.symm.trans signed) (by decide)⟩,
      fun _ => unsigned⟩

theorem unpack_of_unsigned (finite : x.isFinite = true) (unsigned : isNegative x = false) :
    (value x = 0 ∧ x.toModel.unpack = .zero .positive) ∨ ∃ positive : 0 < significand x,
      x.toModel.unpack = .finite .positive (significand x) (exponent x) positive := by
  have signs : sign x = .positive := by
    rw [sign, unsigned]
    rfl
  rw [← signs]
  rcases unpack_eq x finite with ⟨none, unpacked⟩ | found
  · exact .inl ⟨by simp [value, magnitude, none], unpacked⟩
  · exact .inr found

theorem rounds_repack (finite : y.isFinite = true) (made : x = .ofModel (.pack y.toModel.unpack)) :
    Rounds x (value y) ∧ isNegative x = isNegative y := by
  have canonical := canonical_of_finite finite
  have parts : x.isFinite = true ∧ significand x = significand y ∧ exponent x = exponent y ∧ sign x = sign y := by
    rcases unpack_eq y finite with ⟨none, unpacked⟩ | ⟨positive, unpacked⟩
    · rw [unpacked] at made
      obtain ⟨finite, units, e, signs⟩ := parts_of_zero made
      have least := canonical.full.resolve_left (by omega)
      exact ⟨finite, units.trans none.symm, e.trans least.symm, signs⟩
    · rw [unpacked] at made
      exact parts_of_pack positive canonical made
  obtain ⟨finite', units, e, signs⟩ := parts
  have same : magnitude x = magnitude y := by rw [magnitude, units, e, magnitude]
  have signed : isNegative x = isNegative y := by
    rw [isNegative_of_sign signs, sign]
    cases isNegative y <;> rfl
  have nonneg := magnitude_nonneg y
  refine ⟨⟨finite', ?_, fun unsigned => ?_, fun negative => ?_⟩, signed⟩
  · rw [same, abs_value]
    refine ⟨significand y, exponent y, rfl, ?_, canonical.low, ?_, ?_⟩
    · rw [magnitude, sub_self, abs_zero]
      positivity
    · refine canonical.full.symm.imp id fun full => ?_
      rw [magnitude]
      gcongr
      exact_mod_cast full
    · rw [magnitude]
      gcongr
      exact_mod_cast canonical.lt
  · rwa [value_of_unsigned (signed.symm.trans unsigned)]
  · rw [value, signed.symm.trans negative, if_pos rfl]
    exact neg_nonpos.mpr nonneg

theorem shiftLeft_mul (units : ℕ) {e target : ℤ} (le : target ≤ e) :
    ((units <<< (e - target).toNat : ℕ) : ℚ) * 2 ^ target = units * 2 ^ e := by
  obtain ⟨count, rfl⟩ := Int.le.dest le
  rw [add_sub_cancel_left, Int.toNat_natCast, Nat.shiftLeft_eq, zpow_add₀ two_ne_zero, zpow_natCast]
  push_cast
  ring

end RoundingLemmas

open RoundingLemmas

/-! ## Operations -/

section Operations

variable {x y : Float}

/-- The units of a double with its sign, at a smaller exponent. -/
def signedUnits (x : Float) (target : ℤ) : ℤ := (sign x).apply (significand x <<< (exponent x - target).toNat : ℕ)

theorem signedUnits_mul {target : ℤ} (le : target ≤ exponent x) :
    (signedUnits x target : ℚ) * 2 ^ target = value x := by
  have shifted := shiftLeft_mul (significand x) le
  unfold signedUnits value sign magnitude
  cases isNegative x with
  | true =>
    show ((-(_ : ℤ) : ℤ) : ℚ) * 2 ^ target = -(_ * _)
    rw [Int.cast_neg, Int.cast_natCast, neg_mul, shifted]
  | false =>
    show (((_ : ℕ) : ℤ) : ℚ) * 2 ^ target = _ * _
    rw [Int.cast_natCast, shifted]

theorem signedUnits_nonneg (unsigned : isNegative x = false) (target : ℤ) : 0 ≤ signedUnits x target := by
  rw [signedUnits, sign, unsigned]
  exact Int.natCast_nonneg _

theorem exists_add_of_units {positive : 0 < significand x} {positive' : 0 < significand y}
    (unpacked : x.toModel.unpack = .finite (sign x) (significand x) (exponent x) positive)
    (unpacked' : y.toModel.unpack = .finite (sign y) (significand y) (exponent y) positive') :
    ∃ target, x + y = .ofModel
        (.pack (.normalize .binary64 (signedUnits x target + signedUnits y target) target .positive)) ∧
      ((signedUnits x target + signedUnits y target : ℤ) : ℚ) * 2 ^ target = value x + value y := by
  obtain ⟨target, target_eq⟩ : ∃ target, target = min (exponent x) (exponent y) := ⟨_, rfl⟩
  refine ⟨target, ?_, ?_⟩
  · show Float.ofModel (.pack (.add .binary64 x.toModel.unpack y.toModel.unpack)) = _
    rw [unpacked, unpacked', UnpackedFloat.add, ← target_eq]
    rfl
  · rw [Int.cast_add, add_mul, signedUnits_mul (by omega), signedUnits_mul (by omega)]

theorem rounds_add_of_units {positive : 0 < significand x} {positive' : 0 < significand y}
    (unpacked : x.toModel.unpack = .finite (sign x) (significand x) (exponent x) positive)
    (unpacked' : y.toModel.unpack = .finite (sign y) (significand y) (exponent y) positive')
    (small : |value x + value y| < overflow) :
    Rounds (x + y) (value x + value y) ∧
      (isNegative x = false → isNegative y = false → isNegative (x + y) = false) := by
  obtain ⟨target, made, total⟩ := exists_add_of_units unpacked unpacked'
  rw [← total] at small ⊢
  obtain ⟨rounds, unsigned⟩ := rounds_normalize small made
  exact ⟨rounds, fun left right => unsigned (add_nonneg (signedUnits_nonneg left _) (signedUnits_nonneg right _))⟩

/-- The sum of two doubles is the exact sum rounded, and has a sign only if one of them has. -/
theorem rounds_add (finite : x.isFinite = true) (finite' : y.isFinite = true)
    (small : |value x + value y| < overflow) :
    Rounds (x + y) (value x + value y) ∧
      (isNegative x = false → isNegative y = false → isNegative (x + y) = false) := by
  have sum : x + y = .ofModel (.pack (.add .binary64 x.toModel.unpack y.toModel.unpack)) := rfl
  rcases unpack_eq x finite with ⟨none, unpacked⟩ | ⟨positive, unpacked⟩ <;>
    rcases unpack_eq y finite' with ⟨none', unpacked'⟩ | ⟨positive', unpacked'⟩
  · rw [unpacked, unpacked', UnpackedFloat.add] at sum
    rw [value_eq_zero none, value_eq_zero none', add_zero]
    split at sum <;> obtain ⟨-, -, -, signs⟩ := parts_of_zero sum
    · refine ⟨rounds_zero sum, fun unsigned _ => ?_⟩
      rw [isNegative_of_sign signs, sign, unsigned]
      rfl
    · exact ⟨rounds_zero sum, fun _ _ => isNegative_of_sign signs⟩
  · have other : x + y = .ofModel (.pack y.toModel.unpack) := by
      rw [sum, unpacked, unpacked']
      rfl
    rw [value_eq_zero none, zero_add]
    obtain ⟨rounds, signed⟩ := rounds_repack finite' other
    exact ⟨rounds, fun _ unsigned => signed.trans unsigned⟩
  · have other : x + y = .ofModel (.pack x.toModel.unpack) := by
      rw [sum, unpacked, unpacked']
      rfl
    rw [value_eq_zero none', add_zero]
    obtain ⟨rounds, signed⟩ := rounds_repack finite other
    exact ⟨rounds, fun unsigned _ => signed.trans unsigned⟩
  · exact rounds_add_of_units unpacked unpacked' small

theorem value_lt_overflow (finite : x.isFinite = true) : value x < overflow := by
  have canonical := canonical_of_finite finite
  have units : (significand x : ℚ) ≤ 2 ^ 53 - 1 := by
    have : (significand x : ℚ) + 1 ≤ 2 ^ 53 := by exact_mod_cast canonical.lt
    linarith
  have positive : (0 : ℚ) < 2 ^ (970 : ℤ) := by positivity
  calc value x ≤ magnitude x := (le_abs_self _).trans (abs_value x).le
    _ ≤ (2 ^ 53 - 1) * 2 ^ (971 : ℤ) :=
      mul_le_mul units (zpow_le_zpow_right₀ (by norm_num) canonical.high) (by positivity) (by norm_num)
    _ = (2 ^ 54 - 2) * 2 ^ (970 : ℤ) := by
      rw [show (971 : ℤ) = 970 + 1 by norm_num, zpow_add_one₀ two_ne_zero]
      ring
    _ < overflow := mul_lt_mul_of_pos_right (by norm_num) positive

/-- A sum that is not below where doubles end is infinite. -/
theorem isFinite_add_of_overflow (finite : x.isFinite = true) (finite' : y.isFinite = true)
    (large : overflow ≤ value x + value y) : (x + y).isFinite = false := by
  rcases unpack_eq x finite with ⟨none, -⟩ | ⟨positive, unpacked⟩
  · rw [value_eq_zero none, zero_add] at large
    exact absurd (value_lt_overflow finite') (not_lt_of_ge large)
  · rcases unpack_eq y finite' with ⟨none, -⟩ | ⟨positive', unpacked'⟩
    · rw [value_eq_zero none, add_zero] at large
      exact absurd (value_lt_overflow finite) (not_lt_of_ge large)
    · obtain ⟨target, made, total⟩ := exists_add_of_units unpacked unpacked'
      rw [← total] at large
      generalize signedUnits x target + signedUnits y target = units at made large
      have power : (0 : ℚ) < 2 ^ target := by positivity
      have above : (0 : ℚ) < units * 2 ^ target := lt_of_lt_of_le (by unfold overflow; positivity) large
      have some : 0 < units := by exact_mod_cast pos_of_mul_pos_left above power.le
      obtain ⟨n, rfl⟩ := Int.eq_ofNat_of_zero_le some.le
      obtain ⟨units', e', same, scaled, fits⟩ := exists_round .positive target (Int.natCast_pos.mp some)
      rw [made, UnpackedFloat.normalize, Int.compare_eq_gt.mpr some]
      show (Float.ofModel (.pack (UnpackedFloat.round .binary64 .positive n target))).isFinite = false
      rw [same]
      exact isFinite_of_overflow .exact fits (by rw [scaled]; exact_mod_cast large)

theorem add_of_infinite {a b : UnpackedFloat} (infinite : a.isFinite = false) :
    a.add .binary64 b = .notANumber ∨ ∃ s, a.add .binary64 b = .infinity s := by
  cases a with
  | notANumber => exact .inl (by cases b <;> rfl)
  | infinity s =>
    cases b with
    | notANumber => exact .inl rfl
    | infinity t =>
      cases s <;> cases t
      · exact .inr ⟨_, rfl⟩
      · exact .inl rfl
      · exact .inl rfl
      · exact .inr ⟨_, rfl⟩
    | _ => exact .inr ⟨s, rfl⟩
  | zero s => exact absurd infinite (by simp [UnpackedFloat.isFinite])
  | finite s => exact absurd infinite (by simp [UnpackedFloat.isFinite])

theorem isFinite_add_of_infinite (infinite : x.isFinite = false) (y : Float) : (x + y).isFinite = false := by
  have sum : x + y = .ofModel (.pack (.add .binary64 x.toModel.unpack y.toModel.unpack)) := rfl
  rcases @add_of_infinite _ y.toModel.unpack (infinite : x.toModel.unpack.isFinite = false) with same | ⟨s, same⟩
  · rw [sum, same]
    exact isFinite_notANumber
  · rw [sum, same]
    exact isFinite_infinity s

/-- The sum of two doubles without a sign is the exact sum rounded. -/
theorem roundsTo_add (finite : x.isFinite = true) (unsigned : isNegative x = false) (finite' : y.isFinite = true)
    (unsigned' : isNegative y = false) (small : value x + value y < overflow) :
    RoundsTo (x + y) (value x + value y) := by
  have nonneg : 0 ≤ value x + value y := by
    rw [value_of_unsigned unsigned, value_of_unsigned unsigned']
    exact add_nonneg (magnitude_nonneg x) (magnitude_nonneg y)
  obtain ⟨rounds, sign⟩ := rounds_add finite finite' ((abs_of_nonneg nonneg).trans_lt small)
  exact rounds.roundsTo (sign unsigned unsigned')

/-- The product of two doubles without a sign is the exact product rounded. -/
theorem roundsTo_mul (finite : x.isFinite = true) (unsigned : isNegative x = false) (finite' : y.isFinite = true)
    (unsigned' : isNegative y = false) (small : value x * value y < overflow) :
    RoundsTo (x * y) (value x * value y) := by
  have product : x * y = .ofModel (.pack (.mul .binary64 x.toModel.unpack y.toModel.unpack)) := rfl
  rcases unpack_of_unsigned finite unsigned with ⟨zero, unpacked⟩ | ⟨positive, unpacked⟩ <;>
    rcases unpack_of_unsigned finite' unsigned' with ⟨zero', unpacked'⟩ | ⟨positive', unpacked'⟩ <;>
    rw [product, unpacked, unpacked']
  · rw [zero, zero_mul]
    exact roundsTo_zero
  · rw [zero, zero_mul]
    exact roundsTo_zero
  · rw [zero', mul_zero]
    exact roundsTo_zero
  · have scaled :
        ((significand x * significand y : ℕ) : ℚ) * 2 ^ (exponent x + exponent y) = value x * value y := by
      rw [value_of_unsigned unsigned, value_of_unsigned unsigned', magnitude, magnitude, zpow_add₀ two_ne_zero]
      push_cast
      ring
    rw [← scaled] at small ⊢
    refine roundsTo_of_units ?_ small
    have left := canonical_of_finite finite
    have right := canonical_of_finite finite'
    have many (full : 2 ^ 52 ≤ significand x * significand y) : 52 ≤ (significand x * significand y).log2 :=
      (Nat.le_log2 (by positivity)).mpr full
    rcases left.full with full | least
    · have := many (full.trans (Nat.le_mul_of_pos_right _ positive'))
      omega
    · rcases right.full with full | least'
      · have := many (full.trans (Nat.le_mul_of_pos_left _ positive))
        omega
      · omega

theorem div_eq_add_mod (n : ℕ) {d : ℕ} (positive : 0 < d) : (n : ℚ) / d = (n / d : ℕ) + (n % d : ℕ) / d := by
  field_simp
  exact_mod_cast (Nat.div_add_mod n d).symm

/-- The remainder of a division says how the quotient is to be rounded. -/
theorem represents_div (n : ℕ) {d : ℕ} (positive : 0 < d) :
    Represents (.ofMantissaAndAccuracy (n / d) (accuracyOfFraction (n % d) d)) (n / d) := by
  have parts := div_eq_add_mod n positive
  have less : ((n % d : ℕ) : ℚ) < d := by exact_mod_cast Nat.mod_lt n positive
  have divisor : (0 : ℚ) < d := by exact_mod_cast positive
  rw [parts]
  generalize n / d = quotient
  generalize n % d = rest at less
  unfold accuracyOfFraction
  split
  · rename_i none
    rw [none, Nat.cast_zero, zero_div, add_zero]
    exact .exact
  · rename_i some
    have some : (0 : ℚ) < rest := by exact_mod_cast Nat.pos_of_ne_zero some
    rcases lt_trichotomy (2 * rest) d with under | half | beyond
    · rw [Nat.compare_eq_lt.mpr under]
      have under : (2 : ℚ) * rest < d := by exact_mod_cast under
      refine .below (lt_add_of_pos_right _ (by positivity)) (add_lt_add_right ?_ _)
      rw [div_lt_div_iff₀ divisor two_pos]
      linarith
    · rw [Nat.compare_eq_eq.mpr half]
      have half : (rest : ℚ) / d = 1 / 2 := by
        rw [← half]
        push_cast
        field_simp
      rw [half]
      exact .half
    · rw [Nat.compare_eq_gt.mpr beyond]
      have beyond : (d : ℚ) < 2 * rest := by exact_mod_cast beyond
      refine .above (add_lt_add_right ?_ _) (add_lt_add_right ((div_lt_one divisor).mpr less) _)
      rw [div_lt_div_iff₀ two_pos divisor]
      linarith

/-- Enough bits are divided for the quotient to have 53, unless it is subnormal. -/
theorem quotient_bits {units units' count : ℕ} {e target : ℤ} (positive : 0 < units) (positive' : 0 < units')
    (target_eq : target = min e (max ((units.log2 : ℤ) - units'.log2 + e - 53) (-1074)))
    (count_eq : count = (e - target).toNat) :
    target ≤ max ((units <<< count / units').log2 + target - 52) (-1074) := by
  by_cases least : target ≤ -1074
  · omega
  · have bits : 53 + units'.log2 ≤ units.log2 + count := by omega
    have full : 2 ^ 52 ≤ units <<< count / units' := by
      rw [Nat.le_div_iff_mul_le positive', Nat.shiftLeft_eq]
      calc 2 ^ 52 * units' ≤ 2 ^ 52 * 2 ^ (units'.log2 + 1) := Nat.mul_le_mul_left _ Nat.lt_log2_self.le
        _ = 2 ^ (53 + units'.log2) := by ring
        _ ≤ 2 ^ (units.log2 + count) := Nat.pow_le_pow_right (by decide) bits
        _ = 2 ^ units.log2 * 2 ^ count := pow_add _ _ _
        _ ≤ units * 2 ^ count := Nat.mul_le_mul_right _ (Nat.log2_self_le positive.ne')
    have := (Nat.le_log2 (by omega)).mpr full
    omega

/-- The quotient of two doubles without a sign is the exact quotient rounded. -/
theorem roundsTo_div (finite : x.isFinite = true) (unsigned : isNegative x = false) (finite' : y.isFinite = true)
    (unsigned' : isNegative y = false) (nonzero : value y ≠ 0) (small : value x / value y < overflow) :
    RoundsTo (x / y) (value x / value y) := by
  have quotient : x / y = .ofModel (.pack (.div .binary64 x.toModel.unpack y.toModel.unpack)) := rfl
  rcases unpack_of_unsigned finite unsigned with ⟨zero, unpacked⟩ | ⟨positive, unpacked⟩ <;>
    rcases unpack_of_unsigned finite' unsigned' with ⟨zero', unpacked'⟩ | ⟨positive', unpacked'⟩ <;>
    rw [quotient, unpacked, unpacked']
  · exact absurd zero' nonzero
  · rw [zero, zero_div]
    exact roundsTo_zero
  · exact absurd zero' nonzero
  · obtain ⟨target, target_eq⟩ : ∃ target, target = min (exponent x - exponent y)
        (max (((significand x).log2 : ℤ) - (significand y).log2 + (exponent x - exponent y) - 53) (-1074)) :=
      ⟨_, rfl⟩
    let count := (exponent x - exponent y - target).toNat
    have same : ((significand x <<< count : ℕ) : ℚ) / significand y * 2 ^ target = value x / value y := by
      rw [value_of_unsigned unsigned, value_of_unsigned unsigned', magnitude, magnitude, div_mul_eq_mul_div,
        shiftLeft_mul _ (by omega), zpow_sub₀ two_ne_zero]
      field_simp
    rw [← same] at small ⊢
    refine roundsTo_of_rounded rfl
      (exists_rounded (represents_div _ positive') (quotient_bits positive positive' target_eq rfl) small ?_)
    have core : divCore .binary64 (significand x) (exponent x) (significand y) (exponent y) =
        (significand x <<< count / significand y, target,
          accuracyOfFraction (significand x <<< count % significand y) (significand y)) := by
      have total : Format.binary64.targetExponent
          (totalExponent (significand x) (exponent x) - totalExponent (significand y) (exponent y)) =
          max (((significand x).log2 : ℤ) - (significand y).log2 + (exponent x - exponent y) - 53) (-1074) := by
        rw [targetExponent_eq, totalExponent, totalExponent]
        congr 1
        ring
      rw [divCore, total, ← target_eq]
    rw [UnpackedFloat.div, core]
    rfl

theorem roundsTo_ofNat {n : ℕ} (small : (n : ℚ) < overflow) :
    RoundsTo (.ofModel (.pack (.ofNat .binary64 n))) n := by
  have scaled : ((n : ℤ) : ℚ) * 2 ^ (0 : ℤ) = n := by rw [zpow_zero, mul_one, Int.cast_natCast]
  have made : UnpackedFloat.ofNat .binary64 n = .normalize .binary64 n 0 .positive := rfl
  obtain ⟨rounds, unsigned⟩ := @rounds_normalize _ n 0 (by rwa [scaled, Nat.abs_cast]) rfl
  rw [scaled] at rounds
  rw [made]
  exact rounds.roundsTo (unsigned (Int.natCast_nonneg n))

theorem value_ofBits_one : (Float.ofBits 0x3FF0000000000000).isFinite = true ∧
    isNegative (Float.ofBits 0x3FF0000000000000) = false ∧ value (Float.ofBits 0x3FF0000000000000) = 1 := by
  have units : significand (Float.ofBits 0x3FF0000000000000) = 2 ^ 52 := by decide +kernel
  have power : exponent (Float.ofBits 0x3FF0000000000000) = -52 := by decide +kernel
  have unsigned : isNegative (Float.ofBits 0x3FF0000000000000) = false := by decide +kernel
  refine ⟨by decide +kernel, unsigned, ?_⟩
  rw [value_of_unsigned unsigned, magnitude, units, power]
  norm_num

/-- A whole number of up to 53 bits is a double. -/
theorem ofNat_exact {n : ℕ} (few : n < 2 ^ 53) :
    (Float.ofNat n).isFinite = true ∧ isNegative (Float.ofNat n) = false ∧ value (Float.ofNat n) = n := by
  have small : (n : ℚ) < overflow := by
    have few : (n : ℚ) < 2 ^ 53 := by exact_mod_cast few
    exact lt_overflow few (by decide)
  have word : n.toUInt64.toNat = n := Nat.mod_eq_of_lt (by show n < 2 ^ 64; omega)
  have counted : RoundsTo n.toUInt64.toFloat n := by
    have model : n.toUInt64.toFloat = .ofModel (.pack (.ofNat .binary64 n.toUInt64.toNat)) := rfl
    rw [model, word]
    exact roundsTo_ofNat small
  have made : Float.ofNat n = n.toUInt64.toFloat * Float.ofBits 0x3FF0000000000000 := by
    show (if h : n < 2 ^ 53 ∧ 0 ≤ 22 then _ else _) = _
    rw [dif_pos ⟨few, by decide⟩]
    rfl
  obtain ⟨finite, unsigned, one⟩ := value_ofBits_one
  have product := roundsTo_mul counted.finite counted.unsigned finite unsigned
    (by rwa [counted.exact_natCast few, one, mul_one])
  rw [← made, counted.exact_natCast few, one, mul_one] at product
  exact ⟨product.finite, product.unsigned, product.exact_natCast few⟩

theorem ofNat_eq_of_le {n : ℕ} (large : 2 ^ 53 ≤ n) :
    Float.ofNat n = .ofModel (.pack (roundWithAccuracy .binary64 .positive (n <<< 53 * 1) (-53 + 0) .exact)) := by
  have made : Float.ofNat n = .ofModel (.pack (.ofScientific .binary64 n 0)) := by
    show (if h : n < 2 ^ 53 ∧ 0 ≤ 22 then _ else _) = _
    rw [dif_neg (by omega)]
    rfl
  have positive : 0 < n := by omega
  have low : ¬(0 : ℤ) < -(2 ^ Format.binary64.exponentBits + (n.log2 : ℤ)) := by
    have : (0 : ℤ) ≤ 2 ^ Format.binary64.exponentBits := by positivity
    omega
  rw [made, UnpackedFloat.ofScientific, dif_neg positive.ne', if_neg (by decide), if_neg low, if_pos (le_refl _)]
  rfl

/-- A larger whole number is rounded. -/
theorem roundsTo_ofNat_of_le {n : ℕ} (large : 2 ^ 53 ≤ n) (small : (n : ℚ) < overflow) :
    RoundsTo (Float.ofNat n) n := by
  have positive : 0 < n := by omega
  obtain ⟨units, units_eq⟩ : ∃ units, units = n <<< 53 * 1 := ⟨_, rfl⟩
  have scaled : (units : ℚ) * 2 ^ (-53 + 0 : ℤ) = n := by
    rw [units_eq, Nat.mul_one, Nat.shiftLeft_eq, add_zero, zpow_neg]
    push_cast
    exact mul_inv_cancel_right₀ (by positivity) _
  have log : units.log2 = n.log2 + 53 := by rw [units_eq, Nat.mul_one, log2_shiftLeft positive]
  have rounds := @roundsTo_of_units units (-53 + 0) (by omega) (scaled.trans_lt small)
  rwa [scaled, units_eq, ← ofNat_eq_of_le large] at rounds

end Operations

end RecordFormula.Number
