import RecordFormula.Proofs.Doubles
import RecordFormula.Number.Sum

/-!
# From doubles to decimals

The power of two of a double is traded for a power of ten, which loses next to nothing, and then digits are
dropped one at a time until a double could hold what is left. Each dropped digit is rounded by itself, so
the last digit that stays may be off by more than half a unit: by up to five ninths.

Results:
1. `halve_bounds`: what is lost when a power of two is divided out.
2. `units_dropDigits`: what dropping digits one at a time may change.
3. `exists_cut`: how far the decimal of a double is from the double.
4. `Cut.hundredths`: a double nearest to a number of hundredths becomes that number, or one unit of the
   last digit more. The latter needs a power of ten just below a power of two.
-/

namespace RecordFormula.Number

attribute [local instance] natPow

namespace Decimal.Magnitude

/-! ## Powers of two -/

/-- The number that a magnitude stands for. -/
def value (m : Magnitude) : ℚ := m.units * 10 ^ m.power

/-- The part of the number that is lost at most when an odd magnitude is halved that has no room for
another digit. -/
def loss : ℚ := 5 / 2 ^ 96

variable {m : Magnitude}

/-- A magnitude divided by two, which is one step of `halve` up to the power of ten. -/
def halved (m : Magnitude) : Magnitude :=
  if m.units % 2 = 0 then { units := m.units / 2, power := m.power + 1 }
  else if m.units * 5 < bound then { units := m.units * 5, power := m.power }
  else { units := m.units / 2, power := m.power + 1 }

theorem halve_succ (k : ℕ) (m : Magnitude) : halve (k + 1) m = halve k m.halved := rfl

theorem halved_bounds (fits : m.units < bound) :
    m.halved.units < bound ∧ m.power ≤ m.halved.power ∧ m.halved.power ≤ m.power + 1 ∧
      m.halved.value ≤ m.value * 5 ∧ m.value * 5 * (1 - loss) ≤ m.halved.value := by
  have power : (0 : ℚ) < 10 ^ m.power := by positivity
  have next : (10 : ℚ) ^ (m.power + 1) = 10 * 10 ^ m.power := by
    rw [zpow_add₀ (by norm_num), zpow_one, mul_comm]
  have kept : m.value * 5 * (1 - loss) ≤ m.value * 5 := by
    refine mul_le_of_le_one_right ?_ (by unfold loss; norm_num)
    unfold value
    positivity
  unfold halved
  split
  · rename_i even
    have half : (m.units : ℚ) = 2 * (m.units / 2 : ℕ) := by
      exact_mod_cast (by omega : m.units = 2 * (m.units / 2))
    have same : (Magnitude.mk (m.units / 2) (m.power + 1)).value = m.value * 5 := by
      rw [value, value, next]
      show ((m.units / 2 : ℕ) : ℚ) * _ = _
      rw [half]
      ring
    rw [same]
    exact ⟨by show m.units / 2 < _; omega, by show _ ≤ m.power + 1; omega, le_refl _, le_refl _, kept⟩
  · rename_i odd
    split
    · rename_i room
      have same : (Magnitude.mk (m.units * 5) m.power).value = m.value * 5 := by
        rw [value, value]
        push_cast
        ring
      rw [same]
      exact ⟨room, le_refl _, by show m.power ≤ _; omega, le_refl _, kept⟩
    · rename_i full
      have half : (m.units : ℚ) = 2 * (m.units / 2 : ℕ) + 1 := by
        exact_mod_cast (by omega : m.units = 2 * (m.units / 2) + 1)
      have large : (2 : ℚ) ^ 96 ≤ m.units * 5 := by
        exact_mod_cast Nat.le_of_not_lt full
      have lost : (Magnitude.mk (m.units / 2) (m.power + 1)).value = m.value * 5 - 5 * 10 ^ m.power := by
        rw [value, value, next]
        show ((m.units / 2 : ℕ) : ℚ) * _ = _
        rw [half]
        ring
      rw [lost]
      refine ⟨by show m.units / 2 < _; omega, by show _ ≤ m.power + 1; omega, le_refl _, ?_, ?_⟩
      · linarith
      · have enough : (10 : ℚ) ^ m.power * 2 ^ 96 ≤ 10 ^ m.power * (m.units * 5) := by gcongr
        rw [value, loss]
        linarith

/-- Halving divides by a power of two, up to what may be lost at each step. -/
theorem halve_bounds (fits : m.units < bound) (k : ℕ) :
    (halve k m).units < bound ∧ m.power ≤ (halve k m).power ∧ (halve k m).power ≤ m.power + k ∧
      (halve k m).value ≤ m.value * 5 ^ k ∧ m.value * 5 ^ k * (1 - loss) ^ k ≤ (halve k m).value := by
  induction k generalizing m with
  | zero => exact ⟨fits, le_refl _, by simp [halve], by simp [halve], by simp [halve]⟩
  | succ k ih =>
    obtain ⟨fits', low, high, below, above⟩ := halved_bounds fits
    obtain ⟨fitsEnd, lowEnd, highEnd, belowEnd, aboveEnd⟩ := ih fits'
    rw [halve_succ]
    refine ⟨fitsEnd, low.trans lowEnd, by push_cast; omega, ?_, ?_⟩
    · calc (halve k m.halved).value ≤ m.halved.value * 5 ^ k := belowEnd
        _ ≤ m.value * 5 * 5 ^ k := by gcongr
        _ = m.value * 5 ^ (k + 1) := by ring
    · have part : (0 : ℚ) ≤ 1 - loss := by unfold loss; norm_num
      calc m.value * 5 ^ (k + 1) * (1 - loss) ^ (k + 1)
          = m.value * 5 * (1 - loss) * (5 ^ k * (1 - loss) ^ k) := by ring
        _ ≤ m.halved.value * (5 ^ k * (1 - loss) ^ k) := by gcongr
        _ = m.halved.value * 5 ^ k * (1 - loss) ^ k := by ring
        _ ≤ (halve k m.halved).value := aboveEnd

theorem pow_one_sub_loss {k : ℕ} (few : k ≤ 1074) : 1 - 1 / 2 ^ 80 ≤ (1 - loss) ^ k := by
  have bernoulli : 1 + (k : ℚ) * -loss ≤ (1 + -loss) ^ k :=
    one_add_mul_le_pow (by unfold loss; norm_num) k
  have few : (k : ℚ) ≤ 1074 := by exact_mod_cast few
  have small : (k : ℚ) * loss ≤ 1074 * loss := by
    gcongr
    unfold loss
    norm_num
  have least : 1074 * loss ≤ 1 / 2 ^ 80 := by unfold loss; norm_num
  rw [← sub_eq_add_neg] at bernoulli
  linarith

/-- A binary number has a magnitude with a power of ten that is hardly smaller. -/
theorem exists_ofBinary {units k : ℕ} (fits : units < bound) (few : k ≤ 1074) :
    ∃ m, ofBinary units (-k) = .some m ∧ m.units < bound ∧ m.power ≤ 0 ∧ m.value ≤ units / 2 ^ k ∧
      (units : ℚ) / 2 ^ k * (1 - 1 / 2 ^ 80) ≤ m.value := by
  obtain ⟨fits, -, power, below, above⟩ := @halve_bounds ⟨units, -k⟩ fits k
  have start : (Magnitude.mk units (-k)).value * 5 ^ k = units / 2 ^ k := by
    rw [value, zpow_neg, zpow_natCast, show (10 : ℚ) = 2 * 5 by norm_num, mul_pow]
    field_simp
  rw [start] at below above
  refine ⟨halve k ⟨units, -k⟩, ?_, fits, by simpa using power, below, le_trans ?_ above⟩
  · rw [ofBinary]
    cases k with
    | zero => rfl
    | succ k =>
      rw [if_pos (by omega)]
      congr 2
  · gcongr
    exact pow_one_sub_loss few

/-! ## Digits -/

/-- Drops a number of digits, each of them rounded. -/
def dropDigits (k : ℕ) (m : Magnitude) : Magnitude := dropDigit^[k] m

theorem dropDigits_succ (k : ℕ) (m : Magnitude) : dropDigits (k + 1) m = dropDigits k m.dropDigit := rfl

theorem power_dropDigits (k : ℕ) (m : Magnitude) : (dropDigits k m).power = m.power + k := by
  induction k generalizing m with
  | zero => simp [dropDigits]
  | succ k ih =>
    rw [dropDigits_succ, ih, dropDigit]
    push_cast
    ring

theorem units_dropDigit (m : Magnitude) :
    m.units ≤ 10 * m.dropDigit.units + 4 ∧ 10 * m.dropDigit.units ≤ m.units + 5 := by
  have units : m.dropDigit.units = if 5 ≤ m.units % 10 then m.units / 10 + 1 else m.units / 10 := rfl
  rw [units]
  split <;> omega

/-- Rounding digit by digit may go down by four ninths of a unit and up by five ninths. -/
theorem units_dropDigits (k : ℕ) (m : Magnitude) :
    (m.units : ℚ) - 4 / 9 * (10 ^ k - 1) ≤ 10 ^ k * (dropDigits k m).units ∧
      10 ^ k * ((dropDigits k m).units : ℚ) ≤ m.units + 5 / 9 * (10 ^ k - 1) := by
  induction k generalizing m with
  | zero => simp [dropDigits]
  | succ k ih =>
    obtain ⟨low, high⟩ := ih m.dropDigit
    obtain ⟨low', high'⟩ := units_dropDigit m
    have low' : (m.units : ℚ) ≤ 10 * m.dropDigit.units + 4 := by exact_mod_cast low'
    have high' : (10 : ℚ) * m.dropDigit.units ≤ m.units + 5 := by exact_mod_cast high'
    rw [dropDigits_succ, pow_succ]
    constructor <;> linarith

/-- What is cut off a magnitude so that it has the digits of a double is some of its digits, and no more
than necessary. -/
theorem exists_trimDigits (k : ℕ) (m : Magnitude) :
    ∃ j ≤ k, trimDigits k m = dropDigits j m ∧ (j = k ∨ (dropDigits j m).units < 2 ^ 52) ∧
      (j = 0 ∨ 2 ^ 52 ≤ 10 * (dropDigits j m).units + 4) := by
  induction k generalizing m with
  | zero => exact ⟨0, le_refl _, rfl, .inl rfl, .inl rfl⟩
  | succ k ih =>
    rw [trimDigits]
    by_cases many : 2 ^ fractionBits ≤ m.units
    · obtain ⟨j, le, trimmed, enough, necessary⟩ := ih m.dropDigit
      rw [if_pos many]
      refine ⟨j + 1, by omega, trimmed, enough.imp (congrArg (· + 1)) id, .inr ?_⟩
      rcases necessary with rfl | necessary
      · have := (units_dropDigit m).1
        show 2 ^ 52 ≤ 10 * m.dropDigit.units + 4
        unfold fractionBits at many
        omega
      · exact necessary
    · rw [if_neg many]
      exact ⟨0, by omega, rfl, .inr (Nat.lt_of_not_le many), .inl rfl⟩

theorem truncate_eq {k : ℕ} (enough : 10 ^ k ≤ m.units) : truncate k m = dropDigits k m := by
  induction k generalizing m with
  | zero => rfl
  | succ k ih =>
    rw [Nat.pow_succ] at enough
    have positive : 0 < 10 ^ k := by positivity
    have left : m.units / 10 ≠ 0 := by omega
    have enough : 10 ^ k ≤ m.dropDigit.units := by
      have := (units_dropDigit m).1
      omega
    rw [truncate, if_neg left, ih enough, dropDigits_succ]

theorem exists_trimZeros (k : ℕ) (m : Magnitude) :
    ∃ j ≤ k, m.units = (trimZeros k m).units * 10 ^ j ∧ (trimZeros k m).power = m.power + j ∧
      (j = k ∨ (trimZeros k m).units % 10 ≠ 0) := by
  induction k generalizing m with
  | zero => exact ⟨0, le_refl _, by simp [trimZeros], by simp [trimZeros], .inl rfl⟩
  | succ k ih =>
    rw [trimZeros]
    split
    · rename_i zero
      obtain ⟨j, le, units, power, last⟩ := ih { units := m.units / 10, power := m.power + 1 }
      refine ⟨j + 1, by omega, ?_, ?_, last.imp (congrArg (· + 1)) id⟩
      · have : m.units = m.units / 10 * 10 := by omega
        rw [pow_succ, ← mul_assoc, ← units]
        exact this
      · rw [power]
        push_cast
        ring
    · rename_i other
      exact ⟨0, by omega, by simp, by simp, .inr other⟩

/-- Normalizing drops digits, first to the largest scale, where something is to be left, and then until a double
could hold the rest, and cuts off zeros. -/
theorem exists_normalize (low : m.power ≤ 0)
    (kept : truncate (-m.power - 28).toNat m = dropDigits (-m.power - 28).toNat m) :
    ∃ j, m.normalize = some (trimZeros (-(dropDigits j m).power).toNat (dropDigits j m)) ∧
      (dropDigits j m).power ≤ 0 ∧ -28 ≤ (dropDigits j m).power ∧
      ((dropDigits j m).power = 0 ∨ (dropDigits j m).units < 2 ^ 52) ∧
      (j = 0 ∨ (dropDigits j m).power = -28 ∨ 2 ^ 52 ≤ 10 * (dropDigits j m).units + 4) := by
  obtain ⟨first, first_eq⟩ : ∃ first, first = (-m.power - 28).toNat := ⟨_, rfl⟩
  have power := power_dropDigits first m
  obtain ⟨second, le, trimmed, few, necessary⟩ :=
    exists_trimDigits (-(dropDigits first m).power).toNat (dropDigits first m)
  have joined : dropDigits second (dropDigits first m) = dropDigits (second + first) m :=
    (Function.iterate_add_apply dropDigit second first m).symm
  have power' := power_dropDigits (second + first) m
  rw [← first_eq] at kept
  rw [joined] at few trimmed necessary
  refine ⟨second + first, ?_, by omega, by omega, ?_, ?_⟩
  · have none : m.power.toNat = 0 := by omega
    rw [normalize, none]
    show some (trimZeros _ _) = _
    have cut : truncate (-m.power - maxScale).toNat m = dropDigits first m := by
      rw [← kept, first_eq]
      rfl
    show some (trimZeros (-(trimDigits _ _).power).toNat (trimDigits _ _)) = _
    rw [cut, trimmed]
  · exact few.imp (fun _ => by omega) id
  · rcases necessary with rfl | necessary
    · rcases Nat.eq_zero_or_pos first with rfl | _
      · exact .inl rfl
      · exact .inr (.inl (by omega))
    · exact .inr (.inr necessary)

/-! ## From a binary number to digits -/

/-- A number is cut to decimal digits of which some have been dropped. There are no more digits than a double
can hold, and not many fewer unless none was dropped. -/
structure Cut (x : ℚ) (units scale dropped : ℕ) : Prop where
  scale_le : scale ≤ 28
  few : scale = 0 ∨ units < 2 ^ 52
  necessary : dropped = 0 ∨ scale = 28 ∨ 2 ^ 52 ≤ 10 * units + 4
  low : x * 10 ^ scale * (1 - 1 / 2 ^ 80) - 4 / 9 * (1 - 1 / 10 ^ dropped) ≤ units
  high : (units : ℚ) ≤ x * 10 ^ scale + 5 / 9 * (1 - 1 / 10 ^ dropped)

theorem units_eq {all : ℕ} (power : m.power = -all) : (m.units : ℚ) = m.value * 10 ^ all := by
  rw [value, power, zpow_neg, zpow_natCast]
  field_simp

/-- A number that is not too small keeps a digit at the largest scale. -/
theorem enough_of_le (low : m.power ≤ 0) (large : 1 / 10 ^ 28 ≤ m.value) :
    10 ^ (-m.power - 28).toNat ≤ m.units := by
  obtain ⟨all, all_eq⟩ : ∃ all : ℕ, m.power = -all := ⟨(-m.power).toNat, by omega⟩
  have units := units_eq all_eq
  rcases Nat.lt_or_ge all 28 with short | long
  · have none : (-m.power - 28).toNat = 0 := by omega
    have positive : 0 < m.value := lt_of_lt_of_le (by norm_num) large
    have some : (0 : ℚ) < m.units := by
      rw [units]
      positivity
    rw [none, pow_zero]
    exact_mod_cast some
  · have spare : (-m.power - 28).toNat = all - 28 := by omega
    have enough : (10 : ℚ) ^ (all - 28) ≤ m.units :=
      calc (10 : ℚ) ^ (all - 28) = 1 / 10 ^ 28 * 10 ^ (all - 28 + 28) := by
            rw [pow_add]
            field_simp
        _ = 1 / 10 ^ 28 * 10 ^ all := by rw [Nat.sub_add_cancel long]
        _ ≤ m.value * 10 ^ all := by gcongr
        _ = m.units := units.symm
    rw [spare]
    exact_mod_cast enough

/-- A magnitude that is hardly smaller than a number is cut to decimal digits of it, and then zeros are cut off. -/
theorem cut_of_kept {x : ℚ} (low : m.power ≤ 0) (below : m.value ≤ x) (above : x * (1 - 1 / 2 ^ 80) ≤ m.value)
    (kept : truncate (-m.power - 28).toNat m = dropDigits (-m.power - 28).toNat m) :
    ∃ left scale dropped, left = (dropDigits dropped m).units ∧
      m.normalize = some (trimZeros scale ⟨left, -scale⟩) ∧ Cut x left scale dropped := by
  obtain ⟨all, all_eq⟩ : ∃ all : ℕ, m.power = -all := ⟨(-m.power).toNat, by omega⟩
  have units_eq := units_eq all_eq
  obtain ⟨j, normalized, low, high, digits, necessary⟩ := exists_normalize low kept
  obtain ⟨scale, scale_eq⟩ : ∃ scale : ℕ, (dropDigits j m).power = -scale :=
    ⟨(-(dropDigits j m).power).toNat, by omega⟩
  have parts : dropDigits j m = ⟨(dropDigits j m).units, -scale⟩ := by rw [← scale_eq]
  have joined : all = scale + j := by
    have := power_dropDigits j m
    omega
  obtain ⟨least, most⟩ := units_dropDigits j m
  refine ⟨_, scale, j, rfl, ?_, ?_⟩
  · rw [normalized, parts]
    simp
  generalize (dropDigits j m).units = left at *
  have power : (0 : ℚ) < 10 ^ j := by positivity
  have share (c : ℚ) : c * (1 - 1 / 10 ^ j) * 10 ^ j = c * (10 ^ j - 1) := by
    field_simp
  refine ⟨by omega, ?_, ?_, ?_, ?_⟩
  · exact digits.imp (fun none => by omega) id
  · exact necessary.imp id (Or.imp (fun least => by omega) id)
  · refine le_of_mul_le_mul_right ?_ power
    calc (x * 10 ^ scale * (1 - 1 / 2 ^ 80) - 4 / 9 * (1 - 1 / 10 ^ j)) * 10 ^ j
        = x * (1 - 1 / 2 ^ 80) * 10 ^ all - 4 / 9 * (10 ^ j - 1) := by
          rw [sub_mul, share, joined, pow_add]
          ring
      _ ≤ m.value * 10 ^ all - 4 / 9 * (10 ^ j - 1) := by gcongr
      _ ≤ left * 10 ^ j := by
          rw [← units_eq]
          linarith
  · refine le_of_mul_le_mul_right ?_ power
    calc (left : ℚ) * 10 ^ j ≤ m.value * 10 ^ all + 5 / 9 * (10 ^ j - 1) := by
          rw [← units_eq]
          linarith
      _ ≤ x * 10 ^ all + 5 / 9 * (10 ^ j - 1) := by gcongr
      _ = (x * 10 ^ scale + 5 / 9 * (1 - 1 / 10 ^ j)) * 10 ^ j := by
          rw [add_mul, share, joined, pow_add]
          ring

/-- A binary number that is not too small is cut to decimal digits, and then zeros are cut off. -/
theorem exists_cut {units k : ℕ} (fits : units < bound) (few : k ≤ 1074) (some : 1 / 10 ^ 27 ≤ (units : ℚ) / 2 ^ k) :
    ∃ left scale dropped, (ofBinary units (-k)).bind normalize = .some (trimZeros scale ⟨left, -scale⟩) ∧
      Cut (units / 2 ^ k) left scale dropped := by
  obtain ⟨m, binary, -, power, below, above⟩ := exists_ofBinary fits few
  have large : 1 / 10 ^ 28 ≤ m.value := by
    have part : (1 : ℚ) / 10 ≤ 1 - 1 / 2 ^ 80 := by norm_num
    calc (1 : ℚ) / 10 ^ 28 = 1 / 10 ^ 27 * (1 / 10) := by norm_num
      _ ≤ (units : ℚ) / 2 ^ k * (1 - 1 / 2 ^ 80) := by gcongr
      _ ≤ m.value := above
  obtain ⟨left, scale, dropped, -, normalized, cut⟩ :=
    cut_of_kept power below above (truncate_eq (enough_of_le power large))
  exact ⟨left, scale, dropped, by rw [binary]; exact normalized, cut⟩

/-! ## Hundredths -/

/-- How far a double is off an amount in hundredths, in twenty-fifths of a unit of its last place. -/
def remainder (units n k : ℕ) : ℤ := 25 * units - n * 2 ^ (k - 2)

theorem sub_hundredths (units n : ℕ) {k : ℕ} (two : 2 ≤ k) :
    (units : ℚ) / 2 ^ k - n / 100 = remainder units n k / 25 / 2 ^ k := by
  have split : (2 : ℚ) ^ k = 4 * 2 ^ (k - 2) := by
    rw [← Nat.sub_add_cancel two, pow_add, Nat.add_sub_cancel]
    ring
  rw [split, remainder]
  push_cast
  field_simp
  ring

theorem abs_remainder_le {units n k : ℕ} (two : 2 ≤ k)
    (near : |(units : ℚ) / 2 ^ k - n / 100| ≤ 1 / 2 ^ k / 2) : |remainder units n k| ≤ 12 := by
  have power : (0 : ℚ) < 2 ^ k := by positivity
  rw [sub_hundredths _ _ two] at near
  generalize remainder units n k = r at near
  rw [abs_div, abs_of_pos power, div_right_comm, div_le_div_iff_of_pos_right power, abs_div,
    abs_of_pos (by norm_num : (0 : ℚ) < 25), div_le_iff₀ (by norm_num)] at near
  have : 2 * |r| ≤ 25 := by
    have : (2 : ℚ) * |(r : ℚ)| ≤ 25 := by linarith
    exact_mod_cast this
  omega

theorem mul_pow_ten {units n k : ℕ} {r : ℤ} (off : (units : ℚ) / 2 ^ k - n / 100 = r / 25 / 2 ^ k) (scale : ℕ) :
    (units : ℚ) / 2 ^ k * 10 ^ scale = n * 10 ^ scale / 100 + r / 25 * (10 ^ scale / 2 ^ k) := by
  rw [sub_eq_iff_eq_add.mp off, add_mul]
  ring

/-- A power of two and a power of ten that almost meet: a little less than half a binary unit `1 / 2 ^ k` is a
little less than half a decimal unit `1 / 10 ^ scale` too. -/
def AlmostMeet (k scale : ℕ) : Prop := (k = 20 ∧ scale = 6) ∨ (k = 30 ∧ scale = 9)

instance (k scale : ℕ) : Decidable (AlmostMeet k scale) := inferInstanceAs (Decidable (_ ∨ _))

/-- Where a power of ten is just below a power of two they are one of these pairs. -/
theorem almostMeet_of_ratio {k scale : ℕ} (least : 19 ≤ k) (most : k ≤ 59) (less : 10 ^ scale < 2 ^ k)
    (close : 25 * 2 ^ k ≤ 27 * 10 ^ scale) : AlmostMeet k scale := by
  have few : scale ≤ 18 := by
    by_contra many
    have : 10 ^ 19 ≤ 10 ^ scale := Nat.pow_le_pow_right (by decide) (by omega)
    have : 2 ^ k ≤ 2 ^ 59 := Nat.pow_le_pow_right (by decide) most
    omega
  have all : ∀ k < 60, ∀ scale < 19, 19 ≤ k ∧ 10 ^ scale < 2 ^ k ∧ 25 * 2 ^ k ≤ 27 * 10 ^ scale →
      AlmostMeet k scale := by decide +kernel
  exact all k (by omega) scale (by omega) ⟨least, less, close⟩

/-- With no or one digit behind the point none has been dropped. -/
theorem Cut.hundredths_short {units n k left scale dropped : ℕ} (cut : Cut (units / 2 ^ k) left scale dropped)
    (least : 19 ≤ k) (few : n ≤ 10 ^ 12) {r : ℤ} (small : |r| ≤ 12)
    (off : (units : ℚ) / 2 ^ k - n / 100 = r / 25 / 2 ^ k) (short : scale ≤ 1) : left * 100 = n * 10 ^ scale := by
  obtain ⟨-, -, necessary, low, high⟩ := cut
  have tens : (10 : ℚ) ^ scale ≤ 10 := by
    rcases Nat.le_one_iff_eq_zero_or_eq_one.mp short with rfl | rfl <;> norm_num
  have ratio : (10 : ℚ) ^ scale / 2 ^ k ≤ 10 / 2 ^ 19 := by
    gcongr
    norm_num
  have remainder : |(r : ℚ)| ≤ 12 := by exact_mod_cast small
  have offset : |(r : ℚ) / 25 * (10 ^ scale / 2 ^ k)| ≤ 1 / 1000 := by
    rw [abs_mul, abs_div, abs_of_nonneg (by positivity : (0 : ℚ) ≤ 10 ^ scale / 2 ^ k)]
    calc |(r : ℚ)| / |25| * (10 ^ scale / 2 ^ k) ≤ 12 / |25| * (10 / 2 ^ 19) := by gcongr
      _ ≤ 1 / 1000 := by norm_num
  obtain ⟨under, beyond⟩ := abs_le.mp offset
  have size : (n : ℚ) * 10 ^ scale / 100 ≤ 10 ^ 12 * 10 / 100 := by
    have few : (n : ℚ) ≤ 10 ^ 12 := by exact_mod_cast few
    gcongr
  rw [mul_pow_ten off] at low high
  have none : dropped = 0 := by
    refine necessary.resolve_right (not_or.mpr ⟨by omega, fun many => ?_⟩)
    have many : (2 : ℚ) ^ 52 ≤ 10 * left + 4 := by exact_mod_cast many
    have part : (0 : ℚ) ≤ 1 / 10 ^ dropped := by positivity
    linarith
  subst none
  rw [pow_zero, div_one, sub_self, mul_zero, sub_zero] at low
  rw [pow_zero, div_one, sub_self, mul_zero, add_zero] at high
  have apart : |(left * 100 - n * 10 ^ scale : ℤ)| < 1 := by
    have : |((left : ℚ) * 100 - n * 10 ^ scale)| < 1 := by
      rw [abs_lt]
      constructor <;> linarith
    exact_mod_cast this
  have := Int.abs_lt_one_iff.mp apart
  exact_mod_cast sub_eq_zero.mp this

/-- With two digits behind the point or more, dropped digits are rounded to the amount, or to one unit more if
nearly half a unit of the last binary place is just below half a unit of the last decimal place. -/
theorem Cut.hundredths_long {units n k left scale dropped : ℕ} (cut : Cut (units / 2 ^ k) left scale dropped)
    (full : 2 ^ 52 ≤ units) (lt : units < 2 ^ 53) (least : 19 ≤ k) (most : k ≤ 59) {r : ℤ} (small : |r| ≤ 12)
    (off : (units : ℚ) / 2 ^ k - n / 100 = r / 25 / 2 ^ k) (long : 2 ≤ scale) :
    left * 100 = n * 10 ^ scale ∨ (left * 100 = n * 10 ^ scale + 100 ∧ left < 2 ^ 52 ∧
      AlmostMeet k scale ∧ r = 12) := by
  obtain ⟨-, digits, -, low, high⟩ := cut
  replace digits : left < 2 ^ 52 := digits.resolve_left (by omega)
  obtain ⟨ratio, ratio_eq⟩ : ∃ ratio : ℚ, ratio = 10 ^ scale / 2 ^ k := ⟨_, rfl⟩
  have positive : 0 < ratio := by rw [ratio_eq]; positivity
  obtain ⟨hundredths, split⟩ : ∃ hundredths : ℕ, n * 10 ^ scale = hundredths * 100 :=
    ⟨n * 10 ^ (scale - 2), by rw [← Nat.sub_add_cancel long, pow_add, Nat.add_sub_cancel, mul_assoc]; rfl⟩
  have scaled : (units : ℚ) / 2 ^ k * 10 ^ scale = units * ratio := by
    rw [ratio_eq]
    ring
  have exact : (units : ℚ) * ratio = hundredths + r / 25 * ratio := by
    have split : (n : ℚ) * 10 ^ scale / 100 = hundredths := by
      rw [div_eq_iff (by norm_num)]
      exact_mod_cast split
    rw [← scaled, mul_pow_ten off, split, ratio_eq]
  rw [scaled] at low high
  have part : (0 : ℚ) ≤ 1 / 10 ^ dropped := by positivity
  have large : (2 : ℚ) ^ 52 * ratio ≤ units * ratio := by
    gcongr
    exact_mod_cast full
  have digits' : (left : ℚ) + 1 ≤ 2 ^ 52 := by exact_mod_cast digits
  have under : ratio < 1 := by linarith
  have size : (units : ℚ) * ratio ≤ 2 ^ 53 * 1 := by
    gcongr
    exact_mod_cast lt.le
  have offset : |(r : ℚ) / 25 * ratio| ≤ 12 / 25 := by
    have small : |(r : ℚ)| ≤ 12 := by exact_mod_cast small
    rw [abs_mul, abs_div, abs_of_pos positive]
    calc |(r : ℚ)| / |25| * ratio ≤ 12 / |25| * 1 := by gcongr
      _ = 12 / 25 := by norm_num
  obtain ⟨down, up⟩ := abs_le.mp offset
  have lower : hundredths ≤ left := by
    have : (hundredths : ℚ) < left + 1 := by linarith
    have : hundredths < left + 1 := by exact_mod_cast this
    omega
  have upper : left ≤ hundredths + 1 := by
    have : (left : ℚ) < hundredths + 2 := by linarith
    have : left < hundredths + 2 := by exact_mod_cast this
    omega
  rcases Nat.eq_or_lt_of_le lower with same | above
  · exact .inl (by omega)
  · have more : (left : ℚ) = hundredths + 1 := by exact_mod_cast (by omega : left = hundredths + 1)
    have last : r = 12 := by
      by_contra other
      have : (r : ℚ) ≤ 11 := by
        have := (abs_le.mp small).2
        exact_mod_cast (by omega : r ≤ 11)
      have : (r : ℚ) / 25 * ratio ≤ 11 / 25 * 1 := by gcongr
      linarith
    subst last
    push_cast at exact
    have close : 25 / 27 ≤ ratio := by linarith
    rw [ratio_eq, div_lt_one (by positivity)] at under
    rw [ratio_eq, div_le_div_iff₀ (by norm_num) (by positivity)] at close
    refine .inr ⟨by omega, digits, almostMeet_of_ratio least most (by exact_mod_cast under) ?_, rfl⟩
    rw [Nat.mul_comm 27]
    exact_mod_cast close

/-- What is left of a double that is nearest to an amount in hundredths is the amount, or else one unit more. -/
theorem Cut.hundredths {units n k left scale dropped : ℕ} (cut : Cut (units / 2 ^ k) left scale dropped)
    (full : 2 ^ 52 ≤ units) (lt : units < 2 ^ 53) (least : 19 ≤ k) (most : k ≤ 59) (few : n ≤ 10 ^ 12)
    (near : |(units : ℚ) / 2 ^ k - n / 100| ≤ 1 / 2 ^ k / 2) :
    left * 100 = n * 10 ^ scale ∨ (left * 100 = n * 10 ^ scale + 100 ∧ left < 2 ^ 52 ∧
      AlmostMeet k scale ∧ remainder units n k = 12) := by
  have small := abs_remainder_le (by omega) near
  have off := sub_hundredths units n (by omega : 2 ≤ k)
  by_cases short : scale ≤ 1
  · exact .inl (cut.hundredths_short least few small off short)
  · exact cut.hundredths_long full lt least most small off (by omega)

/-- An amount has at most two digits behind the point once its zeros are cut off. -/
theorem trimZeros_of_hundredths {left scale n : ℕ} (hundredths : left * 100 = n * 10 ^ scale) :
    ∃ short ≤ 2, (trimZeros scale ⟨left, -scale⟩).power = -(short : ℕ) ∧
      (trimZeros scale ⟨left, -scale⟩).units * 10 ^ (2 - short) = n := by
  obtain ⟨j, le, units, power, last⟩ := exists_trimZeros scale ⟨left, -scale⟩
  obtain ⟨short, rfl⟩ := Nat.exists_eq_add_of_le le
  generalize trimZeros _ _ = m at *
  replace units : left = m.units * 10 ^ j := units
  have positive : 0 < 10 ^ j := by positivity
  have same : m.units * 100 = n * 10 ^ short := by
    refine Nat.eq_of_mul_eq_mul_right positive ?_
    rw [Nat.mul_right_comm, ← units, hundredths, pow_add, mul_comm (10 ^ j), mul_assoc]
  have short_le : short ≤ 2 := by
    by_contra long
    obtain ⟨more, rfl⟩ : ∃ more, short = more + 3 := ⟨short - 3, by omega⟩
    rw [pow_add, ← mul_assoc] at same
    have := last.resolve_left (by omega)
    omega
  refine ⟨short, short_le, by rw [power]; push_cast; ring, ?_⟩
  rcases (by omega : short = 0 ∨ short = 1 ∨ short = 2) with rfl | rfl | rfl <;> omega

theorem Cut.hundredths_off {units n k left scale dropped more : ℕ} (cut : Cut (units / 2 ^ k) left scale dropped)
    (lt : units < 2 ^ 53) (few : n * 10 ^ (more - 2) < 2 ^ 52 - 4)
    (pair : AlmostMeet k more) (last : remainder units n k = 12)
    (either : left * 100 = n * 10 ^ scale ∨ (left * 100 = n * 10 ^ scale + 100 ∧ AlmostMeet k scale)) :
    scale = more ∧ left * 100 = n * 10 ^ more + 100 := by
  unfold AlmostMeet at pair either
  rcases either with exact | ⟨above, pair'⟩
  · exfalso
    obtain ⟨-, -, necessary, low, -⟩ := cut
    have off := sub_hundredths units n (by omega : 2 ≤ k)
    rw [last] at off
    obtain ⟨ratio, ratio_eq⟩ : ∃ ratio : ℚ, ratio = 10 ^ scale / 2 ^ k := ⟨_, rfl⟩
    have positive : 0 < ratio := by rw [ratio_eq]; positivity
    have scaled : (units : ℚ) / 2 ^ k * 10 ^ scale = units * ratio := by
      rw [ratio_eq]
      ring
    have exact' : (units : ℚ) * ratio = left + 12 / 25 * ratio := by
      have amount : (n : ℚ) * 10 ^ scale / 100 = left := by
        rw [div_eq_iff (by norm_num)]
        exact_mod_cast exact.symm
      rw [← scaled, mul_pow_ten off, amount, ratio_eq]
      norm_num
    have size : (units : ℚ) * ratio ≤ 2 ^ 53 * ratio := by
      gcongr
      exact_mod_cast lt.le
    rw [scaled] at low
    have some : dropped ≠ 0 := by
      rintro rfl
      rw [pow_zero, div_one, sub_self, mul_zero, sub_zero] at low
      linarith
    have part : (0 : ℚ) ≤ 1 / 10 ^ dropped := by positivity
    have small : ratio < 93 / 100 := by linarith
    have less : scale < more := by
      by_contra large
      have := Nat.pow_le_pow_right (by decide : 0 < 10) (Nat.le_of_not_lt large)
      have : (10 : ℚ) ^ more ≤ 10 ^ scale := by exact_mod_cast this
      rw [ratio_eq, div_lt_iff₀ (by positivity)] at small
      rcases pair with ⟨rfl, rfl⟩ | ⟨rfl, rfl⟩ <;> linarith
    have many : 2 ^ 52 ≤ 10 * left + 4 := by omega
    obtain ⟨next, next_eq⟩ : ∃ next, more = next + 2 := ⟨more - 2, by omega⟩
    rw [next_eq, Nat.add_sub_cancel] at few
    have : n * 10 ^ scale ≤ n * (10 ^ next * 10) := by
      rw [← pow_succ]
      exact Nat.mul_le_mul_left _ (Nat.pow_le_pow_right (by decide) (by omega))
    rw [← mul_assoc] at this
    omega
  · obtain rfl : scale = more := by omega
    exact ⟨rfl, above⟩

theorem trimZeros_of_digit {m : Magnitude} (last : m.units % 10 ≠ 0) (k : ℕ) : trimZeros k m = m := by
  cases k with
  | zero => rfl
  | succ k => rw [trimZeros, if_neg last]

end Decimal.Magnitude

end RecordFormula.Number
