import RecordFormula.Proofs.ComparisonLaws
import RecordFormula.Proofs.LowerCase
import RecordFormula.Proofs.NumberOrder

/-!
# Equality of values

Values are equal in three ways: as numbers, as texts in lower case, and null as 0. All three compare one thing,
the key of a value: where its number stands, or the letters of a text that is no number. The only values that
could get in the way are texts that are one text in lower case, and these are numbers together.

Results:
1. `order?_eq_iff_key`: the order of two values is that of equals if they have one key.
2. `compared_equal_iff`: an expression finds values equal if they have one key.
3. `equality_equivalence`: equality is an equivalence of the values that are no NaN.
-/

namespace RecordFormula

open ComparisonsLemmas Number

/-- Whether a value is the number that equals no number. -/
def Value.IsNaN (v : Value) : Prop := ∃ x : Float, x.isNaN = true ∧ v = .number x

/-- What equality sees of a value: where the number stands that arithmetic reads it as, or else its letters. -/
def Value.key (v : Value) : Line ⊕ String :=
  match v.toNumber with
  | .ok x => .inl (place x)
  | .error _ => .inr (Text.lowercase v.display)

namespace EqualityLemmas

variable {v w : Value} {x y : Float} {s t : String}

theorem key_of_number (number : v.toNumber = .ok x) : v.key = .inl (place x) := by
  rw [Value.key, number]

theorem toNumber_text (s : String) : (Value.text s).toNumber =
    match Number.ofText s with
    | some x => .ok x
    | none => .error (.typeMismatch (.notANumber (.text s))) := by
  rfl

theorem ofText_of_toNumber (number : (Value.text s).toNumber = .ok x) : Number.ofText s = some x := by
  rw [toNumber_text] at number
  split at number
  · rename_i reads
    rw [reads, Except.ok.inj number]
  · exact absurd number (by simp)

theorem toNumber_of_wording (wording : Number.ofText s = none) :
    (Value.text s).toNumber = .error (.typeMismatch (.notANumber (.text s))) := by
  rw [toNumber_text, wording]

theorem key_of_wording (wording : Number.ofText s = none) : (Value.text s).key = .inr (Text.lowercase s) := by
  rw [Value.key, toNumber_of_wording wording]
  rfl

theorem toNumber_cases (v : Value) :
    (∃ x, v.toNumber = .ok x) ∨ ∃ s, v = .text s ∧ Number.ofText s = none := by
  cases v with
  | number x => exact .inl ⟨x, rfl⟩
  | boolean b => exact .inl ⟨_, rfl⟩
  | null => exact .inl ⟨0, rfl⟩
  | text s =>
    cases reads : Number.ofText s with
    | none => exact .inr ⟨s, rfl, reads⟩
    | some x => exact .inl ⟨x, by rw [toNumber_text, reads]⟩

theorem number?_of_toNumber (number : v.toNumber = .ok x) : v.number? = some x ∨ v = .null := by
  cases v with
  | number y => exact .inl (congrArg some (Except.ok.inj number))
  | boolean b => exact .inl (congrArg some (Except.ok.inj number))
  | null => exact .inr rfl
  | text s => exact .inl (ofText_of_toNumber number)

theorem isNaN_of_toNumber (plain : ¬v.IsNaN) (number : v.toNumber = .ok x) : x.isNaN = false := by
  cases v with
  | number y =>
    rw [Except.ok.inj number] at plain
    exact Bool.eq_false_iff.mpr fun nan => plain ⟨x, nan, rfl⟩
  | boolean b =>
    rw [← Except.ok.inj number]
    cases b <;> decide +kernel
  | null =>
    rw [← Except.ok.inj number]
    decide +kernel
  | text s => exact not_isNaN_of_ofText (ofText_of_toNumber number)

theorem order?_of_toNumbers (left : v.toNumber = .ok x) (right : w.toNumber = .ok y) :
    v.order? w = Number.order? x y := by
  have byNumber (apart : v.number? = none ∨ w.number? = none) (notTexts : ∀ s t, v = .text s → w ≠ .text t) :
      v.order? w = Number.order? x y := by
    rw [Value.order?_of_toNumber apart notTexts, left, right]
  rcases number?_of_toNumber left with isLeft | rfl
  · rcases number?_of_toNumber right with isRight | rfl
    · exact Value.order?_of_numbers isLeft isRight
    · exact byNumber (.inr rfl) fun s t _ => by simp
  · exact byNumber (.inl rfl) fun s t => by simp

/-- A text without a number is equal to no value with one. -/
theorem order?_of_wording (wording : Number.ofText s = none) (number : w.toNumber = .ok x) :
    (Value.text s).order? w ≠ some .eq := by
  by_cases isText : ∃ t, w = .text t
  · obtain ⟨t, rfl⟩ := isText
    rw [Value.order?_of_texts, wording]
    intro same
    have same := Std.LawfulEqOrd.eq_of_compare (Option.some.inj same)
    have reads := ofText_eq_of_lowercase_eq same.symm (ofText_of_toNumber number)
    exact absurd (wording.symm.trans reads) (by simp)
  · have noNumber : (Value.text s).number? = none := wording
    rw [Value.order?_of_toNumber (.inl noNumber) fun _ t _ isRight => isText ⟨t, isRight⟩,
      toNumber_of_wording wording]
    simp

end EqualityLemmas

open EqualityLemmas

/-- Values that are no NaN have the order of equals if they have one key. -/
theorem Value.order?_eq_iff_key {v w : Value} (plain : ¬v.IsNaN) (plain' : ¬w.IsNaN) :
    v.order? w = some .eq ↔ v.key = w.key := by
  rcases toNumber_cases v with ⟨x, left⟩ | ⟨s, rfl, wording⟩
  · rcases toNumber_cases w with ⟨y, right⟩ | ⟨t, rfl, wording'⟩
    · rw [order?_of_toNumbers left right, key_of_number left, key_of_number right, Sum.inl.injEq,
        Number.order?_eq_compare, ← beq_iff_compare, beq_iff]
      exact ⟨fun same => same.2.2, fun same =>
        ⟨isNaN_of_toNumber plain left, isNaN_of_toNumber plain' right, same⟩⟩
    · rw [key_of_number left, key_of_wording wording', Value.order?_swap, Option.map_eq_some_iff]
      refine iff_of_false ?_ (by simp)
      rintro ⟨order, found, same⟩
      obtain rfl : order = .eq := Ordering.swap_eq_eq.mp same
      exact order?_of_wording wording' left found
  · rcases toNumber_cases w with ⟨y, right⟩ | ⟨t, rfl, wording'⟩
    · rw [key_of_wording wording, key_of_number right]
      exact iff_of_false (order?_of_wording wording right) (by simp)
    · rw [key_of_wording wording, key_of_wording wording', Value.order?_of_texts, wording, Option.some_inj,
        Sum.inr.injEq]
      exact Std.compare_eq_iff_eq

theorem compared_equal_iff_order {v w : Value} :
    compared .equal v w = .ok (.boolean true) ↔ v.order? w = some .eq := by
  cases found : v.order? w with
  | some order =>
    rw [compared_of_order found]
    cases order <;> simp [Comparator.test]
  | none =>
    rw [compared_of_none found]
    simp [Comparator.isEquality]

/-- An expression finds values that are no NaN equal if they have one key. -/
theorem compared_equal_iff {v w : Value} (plain : ¬v.IsNaN) (plain' : ¬w.IsNaN) :
    compared .equal v w = .ok (.boolean true) ↔ v.key = w.key := by
  rw [compared_equal_iff_order, Value.order?_eq_iff_key plain plain']

/-- Equality is an equivalence of the values that are no NaN: of null, of the other numbers, the infinite ones
included, of truth values and of texts. -/
theorem equality_equivalence :
    Equivalence fun v w : { v : Value // ¬v.IsNaN } => compared .equal v.1 w.1 = .ok (.boolean true) where
  refl v := (compared_equal_iff v.2 v.2).mpr rfl
  symm {v w} same := (compared_equal_iff w.2 v.2).mpr ((compared_equal_iff v.2 w.2).mp same).symm
  trans {u v w} same same' := (compared_equal_iff u.2 w.2).mpr
    (((compared_equal_iff u.2 v.2).mp same).trans ((compared_equal_iff v.2 w.2).mp same'))

end RecordFormula
