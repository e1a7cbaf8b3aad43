import RecordFormula.Proofs.Comparisons
import RecordFormula.Proofs.Doubles

/-!
# The order of doubles

A double that is no NaN stands at a rational number or at one of the two ends of the line, and two doubles
compare as the places at which they stand. The model of doubles compares exponents first and significands
then, which is the same because a significand has as many bits as it can have.

Results:
1. `compares_of_standsAt`: what the model makes of two places.
2. `lt_iff`, `le_iff`, `beq_iff`: doubles are less, at most and equal as their places are.
3. `beq_eq_decide`: finite doubles are equal if they stand for one number.
-/

namespace RecordFormula.Number

open Float.Model Float.Model.UnpackedFloat DoublesLemmas ComparisonsLemmas

/-- The rational numbers with an end on either side. -/
abbrev Line := WithBot (WithTop ℚ)

/-- Where a double stands on the line. A NaN stands nowhere, and what this says of it means nothing. -/
def place (x : Float) : Line :=
  if x.isFinite then ((value x : WithTop ℚ) : Line) else if isNegative x then ⊥ else ((⊤ : WithTop ℚ) : Line)

theorem place_of_finite {x : Float} (finite : x.isFinite = true) : place x = ((value x : WithTop ℚ) : Line) :=
  if_pos finite

namespace NumberOrderLemmas

/-- What the model sees of a double that stands at a place. -/
inductive StandsAt : UnpackedFloat → Line → Prop where
  | low : StandsAt (.infinity .negative) ⊥
  | negative {units : ℕ} {e : ℤ} {some : 0 < units} : Canonical units e →
      StandsAt (.finite .negative units e some) ((-((units : ℚ) * 2 ^ e) : ℚ) : WithTop ℚ)
  | zero {s : UnpackedFloat.Sign} : StandsAt (.zero s) ((0 : ℚ) : WithTop ℚ)
  | positive {units : ℕ} {e : ℤ} {some : 0 < units} : Canonical units e →
      StandsAt (.finite .positive units e some) (((units : ℚ) * 2 ^ e : ℚ) : WithTop ℚ)
  | high : StandsAt (.infinity .positive) ((⊤ : WithTop ℚ) : Line)

variable {x y : Float} {p q : ℚ} {order : Ordering}

theorem compares_coe : order.Compares ((p : WithTop ℚ) : Line) ((q : WithTop ℚ) : Line) ↔ order.Compares p q := by
  cases order <;> simp [Ordering.Compares]

theorem compares_neg (compares : order.Compares p q) : order.swap.Compares (-p) (-q) := by
  cases order with
  | lt => exact neg_lt_neg compares
  | eq => exact congrArg _ compares
  | gt => exact neg_lt_neg compares

theorem magnitude_lt {units units' : ℕ} {e e' : ℤ} (canonical : Canonical units e)
    (canonical' : Canonical units' e') (less : e < e') : (units : ℚ) * 2 ^ e < units' * 2 ^ e' := by
  have full : 2 ^ 52 ≤ units' := canonical'.full.resolve_right fun least => by
    have := canonical.low
    omega
  calc (units : ℚ) * 2 ^ e < 2 ^ 53 * 2 ^ e := by
        gcongr
        exact_mod_cast canonical.lt
    _ = 2 ^ 52 * 2 ^ (e + 1) := by
        rw [zpow_add_one₀ two_ne_zero]
        ring
    _ ≤ units' * 2 ^ e' := by
        gcongr
        · exact_mod_cast full
        · norm_num
        · omega

theorem compares_magnitude {units units' : ℕ} {e e' : ℤ} (canonical : Canonical units e)
    (canonical' : Canonical units' e') :
    ((compare e e').then (compare units units')).Compares ((units : ℚ) * 2 ^ e) (units' * 2 ^ e') := by
  rcases lt_trichotomy e e' with less | rfl | greater
  · rw [Int.compare_eq_lt.mpr less]
    exact magnitude_lt canonical canonical' less
  · have power : (0 : ℚ) < 2 ^ e := by positivity
    rw [Int.compare_eq_eq.mpr rfl]
    show (compare units units').Compares _ _
    rcases lt_trichotomy units units' with less | rfl | greater
    · rw [Nat.compare_eq_lt.mpr less]
      exact mul_lt_mul_of_pos_right (by exact_mod_cast less) power
    · rw [Nat.compare_eq_eq.mpr rfl]
      exact rfl
    · rw [Nat.compare_eq_gt.mpr greater]
      exact mul_lt_mul_of_pos_right (by exact_mod_cast greater) power
  · rw [Int.compare_eq_gt.mpr greater]
    exact magnitude_lt canonical' canonical greater

theorem magnitude_pos {units : ℕ} (positive : 0 < units) (e : ℤ) : (0 : ℚ) < units * 2 ^ e := by positivity

/-- The model compares the places. -/
theorem compares_of_standsAt {a b : UnpackedFloat} {p q : Line} (left : StandsAt a p) (right : StandsAt b q) :
    ∃ order, a.compare b = some order ∧ order.Compares p q := by
  cases left with
  | low =>
    cases right with
    | low => exact ⟨.eq, rfl, rfl⟩
    | _ => exact ⟨.lt, rfl, WithBot.bot_lt_coe _⟩
  | high =>
    cases right with
    | low => exact ⟨.gt, rfl, WithBot.bot_lt_coe _⟩
    | high => exact ⟨.eq, rfl, rfl⟩
    | _ => exact ⟨.gt, rfl, WithBot.coe_lt_coe.mpr (WithTop.coe_lt_top _)⟩
  | zero =>
    cases right with
    | low => exact ⟨.gt, rfl, WithBot.bot_lt_coe _⟩
    | high => exact ⟨.lt, rfl, WithBot.coe_lt_coe.mpr (WithTop.coe_lt_top _)⟩
    | zero => exact ⟨.eq, rfl, rfl⟩
    | @negative units e some _ => exact ⟨.gt, rfl, compares_coe.mpr (neg_lt_zero.mpr (magnitude_pos some e))⟩
    | @positive units e some _ => exact ⟨.lt, rfl, compares_coe.mpr (magnitude_pos some e)⟩
  | @negative units e some canonical =>
    have below : -((units : ℚ) * 2 ^ e) < 0 := neg_lt_zero.mpr (magnitude_pos some e)
    cases right with
    | low => exact ⟨.gt, rfl, WithBot.bot_lt_coe _⟩
    | high => exact ⟨.lt, rfl, WithBot.coe_lt_coe.mpr (WithTop.coe_lt_top _)⟩
    | zero => exact ⟨.lt, rfl, compares_coe.mpr below⟩
    | negative canonical' =>
      exact ⟨_, rfl, compares_coe.mpr (compares_neg (compares_magnitude canonical canonical'))⟩
    | @positive units' e' some' _ => exact ⟨.lt, rfl, compares_coe.mpr (below.trans (magnitude_pos some' e'))⟩
  | @positive units e some canonical =>
    have above : (0 : ℚ) < units * 2 ^ e := magnitude_pos some e
    cases right with
    | low => exact ⟨.gt, rfl, WithBot.bot_lt_coe _⟩
    | high => exact ⟨.lt, rfl, WithBot.coe_lt_coe.mpr (WithTop.coe_lt_top _)⟩
    | zero => exact ⟨.gt, rfl, compares_coe.mpr above⟩
    | @negative units' e' some' _ =>
      exact ⟨.gt, rfl, compares_coe.mpr ((neg_lt_zero.mpr (magnitude_pos some' e')).trans above)⟩
    | positive canonical' => exact ⟨_, rfl, compares_coe.mpr (compares_magnitude canonical canonical')⟩

/-- The model sees a double that is neither finite nor a NaN as the end on its side. -/
theorem unpack_of_infinite (number : x.isNaN = false) (infinite : x.isFinite = false) :
    x.toModel.unpack = .infinity (sign x) := by
  have signBit := sign_unpackSign x
  replace number : (UnpackedFloat.unpack Format.binary64 x.toBits.toBitVec).isNaN = false := number
  replace infinite : (UnpackedFloat.unpack Format.binary64 x.toBits.toBitVec).isFinite = false := infinite
  show UnpackedFloat.unpack Format.binary64 x.toBits.toBitVec = _
  unfold UnpackedFloat.unpack at number infinite ⊢
  simp only [signBit] at number infinite ⊢
  split at infinite
  · rename_i top
    rw [if_pos top] at number ⊢
    split at infinite
    · rename_i none
      rw [if_pos none]
    · rename_i some
      rw [if_neg some] at number
      exact absurd number (by decide)
  · split at infinite
    · split at infinite <;> exact absurd infinite (by simp [UnpackedFloat.isFinite])
    · exact absurd infinite (by simp [UnpackedFloat.isFinite])

theorem standsAt_place (number : x.isNaN = false) : StandsAt x.toModel.unpack (place x) := by
  unfold place
  cases finite : x.isFinite with
  | true =>
    rw [if_pos rfl, value, magnitude]
    rcases unpack_eq x finite with ⟨none, unpacked⟩ | ⟨positive, unpacked⟩
    · rw [unpacked, none, Nat.cast_zero, zero_mul, neg_zero, ite_self]
      exact .zero
    · have canonical := canonical_of_finite finite
      rw [unpacked, sign]
      cases isNegative x with
      | true => exact .negative canonical
      | false => exact .positive canonical
  | false =>
    rw [unpack_of_infinite number finite, sign, if_neg Bool.false_ne_true]
    cases isNegative x with
    | true => exact .low
    | false => exact .high

/-- Numbers compare as their places do, and a NaN does not compare. -/
theorem compare_eq_some_iff :
    x.toModel.compare y.toModel = some order ↔
      x.isNaN = false ∧ y.isNaN = false ∧ order.Compares (place x) (place y) := by
  have compared (number : x.isNaN = false) (other : y.isNaN = false) :
      ∃ order, x.toModel.compare y.toModel = some order ∧ order.Compares (place x) (place y) :=
    compares_of_standsAt (standsAt_place number) (standsAt_place other)
  constructor
  · intro found
    obtain ⟨number, other⟩ := not_isNaN_of_order? ((order?_eq_compare x y).trans found)
    obtain ⟨order, same, compares⟩ := compared number other
    obtain rfl := Option.some.inj (same.symm.trans found)
    exact ⟨number, other, compares⟩
  · rintro ⟨number, other, compares⟩
    obtain ⟨order', same, compares'⟩ := compared number other
    rw [same, Ordering.Compares.inj compares' compares]

end NumberOrderLemmas

open NumberOrderLemmas

section Order

variable {x y : Float}

/-- A double is less than another if it stands in front of it. -/
theorem lt_iff : x < y ↔ x.isNaN = false ∧ y.isNaN = false ∧ place x < place y := by
  rw [lt_iff_compare, compare_eq_some_iff]
  rfl

/-- Doubles are equal if they stand at one place. -/
theorem beq_iff : (x == y) = true ↔ x.isNaN = false ∧ y.isNaN = false ∧ place x = place y := by
  rw [beq_iff_compare, compare_eq_some_iff]
  rfl

/-- A double is at most another if it does not stand behind it. -/
theorem le_iff : x ≤ y ↔ x.isNaN = false ∧ y.isNaN = false ∧ place x ≤ place y := by
  have model : x ≤ y ↔ (x.toModel.compare y.toModel).any Ordering.isLE = true := by
    show decide (x.toModel ≤ y.toModel) = true ↔ _
    rw [decide_eq_true_eq]
    rfl
  have cases : (x.toModel.compare y.toModel).any Ordering.isLE = true ↔
      x.toModel.compare y.toModel = some .lt ∨ x.toModel.compare y.toModel = some .eq := by
    generalize x.toModel.compare y.toModel = compared
    obtain _ | _ | _ | _ := compared <;> simp
  rw [model, cases, ← lt_iff_compare, ← beq_iff_compare, lt_iff, beq_iff, le_iff_lt_or_eq]
  tauto

/-- Finite doubles are equal if they stand for one number. -/
theorem beq_eq_decide (finite : x.isFinite = true) (finite' : y.isFinite = true) :
    (x == y) = decide (value x = value y) := by
  rw [Bool.eq_iff_iff, beq_iff, decide_eq_true_eq, place_of_finite finite, place_of_finite finite',
    WithBot.coe_inj, WithTop.coe_inj]
  exact ⟨fun same => same.2.2, fun same =>
    ⟨not_isNaN_of_isFinite finite, not_isNaN_of_isFinite finite', same⟩⟩

theorem beq_zero (finite : x.isFinite = true) : (x == 0) = decide (value x = 0) := by
  rw [beq_eq_decide finite (by decide +kernel), value_zero]

theorem isFinite_of_beq (same : (x == y) = true) (finite : y.isFinite = true) : x.isFinite = true := by
  obtain ⟨-, -, same⟩ := beq_iff.mp same
  rw [place_of_finite finite, place] at same
  cases infinite : x.isFinite with
  | true => rfl
  | false =>
    rw [infinite, if_neg Bool.false_ne_true] at same
    split at same
    · exact absurd same WithBot.bot_ne_coe
    · exact absurd (WithBot.coe_inj.mp same) WithTop.top_ne_coe

end Order

end RecordFormula.Number
