import RecordFormula.Proofs.CallSpans
import RecordFormula.Proofs.RecordValues
import RecordFormula.Proofs.WholeNumbers

/-!
# Lists of records one behind the other

Counts of two lists add up to the count of both. The smallest number of both is the smaller one of two, but
only where both have one: a list without numbers answers 0, which is not among the numbers of the other. A
NaN is passed over as long as there is a number.

Results:
1. `isExtreme_reduce`: a list with a number that is no NaN has a smallest and a largest one.
2. `beq_of_isExtreme`: these are unique, up to the sign of a zero.
3. `combine_over_split`: counts and extremes of two lists give those of both.
-/

namespace RecordFormula

open Number ComparisonsLemmas RecordValuesLemmas

/-! ## Extremes -/

/-- The functions that choose one of the numbers of their argument. -/
inductive Extreme where
  | minimum | maximum

namespace Extreme

def builtin : Extreme → Builtin
  | .minimum => .minimum
  | .maximum => .maximum

/-- What the function keeps of two numbers. -/
def choose : Extreme → Float → Float → Float
  | .minimum => smaller
  | .maximum => larger

def reduce : Extreme → List Float → Float
  | .minimum => Number.minimum
  | .maximum => Number.maximum

/-- Whether a number is farther in the direction of the function than another. -/
def Precedes : Extreme → Float → Float → Prop
  | .minimum, x, y => x < y
  | .maximum, x, y => y < x

instance (kind : Extreme) (x y : Float) : Decidable (kind.Precedes x y) :=
  match kind with
  | .minimum => inferInstanceAs (Decidable (x < y))
  | .maximum => inferInstanceAs (Decidable (y < x))

/-- The smaller of two numbers, or the larger. -/
def of (kind : Extreme) (x y : Float) : Float := if kind.Precedes y x then y else x

/-- Whether a number is at least as far as another. -/
def Leads : Extreme → Float → Float → Prop
  | .minimum, x, y => x ≤ y
  | .maximum, x, y => y ≤ x

variable {kind : Extreme} {x y z r s : Float} {xs ys : List Float}

theorem Leads.numbers (leads : kind.Leads x y) : x.isNaN = false ∧ y.isNaN = false := by
  cases kind with
  | minimum =>
    obtain ⟨number, other, -⟩ := le_iff.mp leads
    exact ⟨number, other⟩
  | maximum =>
    obtain ⟨other, number, -⟩ := le_iff.mp leads
    exact ⟨number, other⟩

theorem leads_refl (number : x.isNaN = false) : kind.Leads x x := by
  cases kind <;> exact le_iff.mpr ⟨number, number, le_refl _⟩

theorem Leads.trans (first : kind.Leads x y) (second : kind.Leads y z) : kind.Leads x z := by
  cases kind with
  | minimum =>
    obtain ⟨number, -, le⟩ := le_iff.mp first
    obtain ⟨-, other, le'⟩ := le_iff.mp second
    exact le_iff.mpr ⟨number, other, le.trans le'⟩
  | maximum =>
    obtain ⟨-, number, le⟩ := le_iff.mp first
    obtain ⟨other, -, le'⟩ := le_iff.mp second
    exact le_iff.mpr ⟨other, number, le'.trans le⟩

theorem Leads.beq (first : kind.Leads x y) (second : kind.Leads y x) : (x == y) = true := by
  obtain ⟨number, other⟩ := first.numbers
  cases kind with
  | minimum => exact beq_iff.mpr ⟨number, other, le_antisymm (le_iff.mp first).2.2 (le_iff.mp second).2.2⟩
  | maximum => exact beq_iff.mpr ⟨number, other, le_antisymm (le_iff.mp second).2.2 (le_iff.mp first).2.2⟩

theorem Precedes.leads (precedes : kind.Precedes x y) : kind.Leads x y := by
  cases kind with
  | minimum =>
    obtain ⟨number, other, less⟩ := lt_iff.mp precedes
    exact le_iff.mpr ⟨number, other, less.le⟩
  | maximum =>
    obtain ⟨other, number, less⟩ := lt_iff.mp precedes
    exact le_iff.mpr ⟨other, number, less.le⟩

theorem leads_of_not_precedes (number : x.isNaN = false) (other : y.isNaN = false)
    (not : ¬ kind.Precedes y x) : kind.Leads x y := by
  cases kind with
  | minimum => exact le_iff.mpr ⟨number, other, not_lt.mp fun less => not (lt_iff.mpr ⟨other, number, less⟩)⟩
  | maximum => exact le_iff.mpr ⟨other, number, not_lt.mp fun less => not (lt_iff.mpr ⟨number, other, less⟩)⟩

theorem of_eq (kind : Extreme) (x y : Float) : kind.of x y = x ∨ kind.of x y = y := by
  unfold of
  split
  · exact .inr rfl
  · exact .inl rfl

theorem leads_of (kind : Extreme) (number : x.isNaN = false) (other : y.isNaN = false) :
    kind.Leads (kind.of x y) x ∧ kind.Leads (kind.of x y) y := by
  unfold of
  split
  · rename_i precedes
    exact ⟨precedes.leads, leads_refl other⟩
  · rename_i not
    exact ⟨leads_refl number, leads_of_not_precedes number other not⟩

theorem of_of_isNaN (nan : y.isNaN = true) : kind.of x y = x :=
  if_neg fun precedes => absurd (precedes.leads.numbers.1.symm.trans nan) Bool.false_ne_true

theorem choose_eq_ite (kind : Extreme) (x y : Float) : kind.choose x y = if x.isNaN then y else kind.of x y := by
  cases kind <;> rfl

theorem choose_eq (kind : Extreme) (x y : Float) : kind.choose x y = x ∨ kind.choose x y = y := by
  rw [choose_eq_ite]
  split
  · exact .inr rfl
  · exact of_eq kind x y

/-- What the function keeps of two doubles leads those of them that are no NaN. -/
theorem leads_choose (kind : Extreme) (x y : Float) :
    ∀ z ∈ [x, y], z.isNaN = false → kind.Leads (kind.choose x y) z := by
  intro z mem number
  have either : z = x ∨ z = y := by simpa using mem
  rw [choose_eq_ite]
  cases nan : x.isNaN with
  | true =>
    rcases either with rfl | rfl
    · exact absurd (number.symm.trans nan) Bool.false_ne_true
    · exact leads_refl number
  | false =>
    rw [if_neg Bool.false_ne_true]
    cases nan' : y.isNaN with
    | true =>
      rw [of_of_isNaN nan']
      rcases either with rfl | rfl
      · exact leads_refl number
      · exact absurd (number.symm.trans nan') Bool.false_ne_true
    | false =>
      obtain ⟨left, right⟩ := leads_of kind nan nan'
      rcases either with rfl | rfl
      · exact left
      · exact right

/-- One of some doubles that leads all numbers among them. -/
structure IsExtreme (kind : Extreme) (r : Float) (xs : List Float) : Prop where
  number : r.isNaN = false
  mem : r ∈ xs
  leads : ∀ x ∈ xs, x.isNaN = false → kind.Leads r x

/-- The extremes of a list are equal. -/
theorem beq_of_isExtreme (left : kind.IsExtreme r xs) (right : kind.IsExtreme s xs) : (r == s) = true :=
  (left.leads s right.mem right.number).beq (right.leads r left.mem left.number)

/-- What leads what is kept of the first two of some doubles leads all of them. -/
theorem IsExtreme.of_choose (extreme : kind.IsExtreme r (kind.choose x y :: xs)) :
    kind.IsExtreme r (x :: y :: xs) := by
  obtain ⟨number, mem, leads⟩ := extreme
  refine ⟨number, ?_, fun z among isNumber => ?_⟩
  · rcases List.mem_cons.mp mem with rfl | mem
    · rcases choose_eq kind x y with same | same <;> rw [same] <;> simp
    · exact List.mem_cons_of_mem _ (List.mem_cons_of_mem _ mem)
  · have split : z ∈ [x, y] ∨ z ∈ xs := List.mem_append.mp among
    rcases split with first | mem
    · have kept := leads_choose kind x y z first isNumber
      exact (leads _ List.mem_cons_self kept.numbers.1).trans kept
    · exact leads z (List.mem_cons_of_mem _ mem) isNumber

/-- The reduction leads the numbers that it has passed, from the first on, if there is one. -/
theorem isExtreme_foldl (xs : List Float) {x : Float} (some : ∃ z ∈ x :: xs, z.isNaN = false) :
    kind.IsExtreme (xs.foldl kind.choose x) (x :: xs) := by
  induction xs generalizing x with
  | nil =>
    obtain ⟨z, mem, number⟩ := some
    obtain rfl := List.mem_singleton.mp mem
    refine ⟨number, mem, fun y among _ => ?_⟩
    rw [List.mem_singleton.mp among]
    exact leads_refl number
  | cons y xs ih =>
    refine (ih ?_).of_choose
    obtain ⟨z, mem, number⟩ := some
    have split : z ∈ [x, y] ∨ z ∈ xs := List.mem_append.mp mem
    rcases split with first | mem
    · exact ⟨_, List.mem_cons_self, (leads_choose kind x y z first number).numbers.1⟩
    · exact ⟨z, List.mem_cons_of_mem _ mem, number⟩

/-- A list with a number has an extreme. -/
theorem isExtreme_reduce (kind : Extreme) (some : ∃ x ∈ xs, x.isNaN = false) :
    kind.IsExtreme (kind.reduce xs) xs := by
  cases xs with
  | nil => simp at some
  | cons x xs =>
    have reduced : kind.reduce (x :: xs) = xs.foldl kind.choose x := by cases kind <;> rfl
    rw [reduced]
    exact isExtreme_foldl xs some

/-- The extreme of two lists with numbers is that of their extremes. -/
theorem IsExtreme.append (left : kind.IsExtreme r xs) (right : kind.IsExtreme s ys) :
    kind.IsExtreme (kind.of r s) (xs ++ ys) := by
  obtain ⟨front, back⟩ := leads_of kind left.number right.number
  refine ⟨front.numbers.1, ?_, fun x mem number => ?_⟩
  · rcases of_eq kind r s with same | same <;> rw [same]
    · exact List.mem_append_left _ left.mem
    · exact List.mem_append_right _ right.mem
  · rcases List.mem_append.mp mem with mem | mem
    · exact front.trans (left.leads x mem number)
    · exact back.trans (right.leads x mem number)

/-- A list without numbers does not change the extreme of another, in front of it or behind it. -/
theorem IsExtreme.of_subset (extreme : kind.IsExtreme r xs) (subset : xs ⊆ ys)
    (rest : ∀ y ∈ ys, y.isNaN = false → y ∈ xs) : kind.IsExtreme r ys :=
  ⟨extreme.number, subset extreme.mem, fun y mem number => extreme.leads y (rest y mem number) number⟩

end Extreme

/-! ## Calls -/

/-- Whether an argument has a number, which is no NaN, for one of some records. -/
def AggregateArgument.HasNumber (arg : AggregateArgument) (ctx : Context) (records : List Record) : Prop :=
  ∃ record ∈ records, ∃ x, arg.numberOf? ctx record = some x ∧ x.isNaN = false

namespace AggregateArgument

variable {arg : AggregateArgument} {ctx : Context} {records A B : List Record}

theorem hasNumber_iff :
    arg.HasNumber ctx records ↔ ∃ x ∈ records.filterMap (arg.numberOf? ctx), x.isNaN = false := by
  constructor
  · rintro ⟨record, mem, x, found, number⟩
    exact ⟨x, List.mem_filterMap.mpr ⟨record, mem, found⟩, number⟩
  · rintro ⟨x, mem, number⟩
    obtain ⟨record, mem, found⟩ := List.mem_filterMap.mp mem
    exact ⟨record, mem, x, found, number⟩

end AggregateArgument

/-- How an extreme over two lists of records follows from those over each of them. -/
structure Extreme.Combine (kind : Extreme) (arg : AggregateArgument) (ctx : Context) (A B : List Record)
    (a b both : Float) : Prop where
  of_both : arg.HasNumber ctx A → arg.HasNumber ctx B → (both == kind.of a b) = true
  of_first : arg.HasNumber ctx A → ¬ arg.HasNumber ctx B → (both == a) = true
  of_second : ¬ arg.HasNumber ctx A → arg.HasNumber ctx B → (both == b) = true
  /-- There is no number at all, and no NaN. -/
  of_none : (∀ record ∈ A ++ B, arg.numberOf? ctx record = none) → both = 0

namespace Extreme

variable {kind : Extreme} {arg : AggregateArgument} {ctx : Context} {A B : List Record}

theorem combine_reduce (kind : Extreme) (arg : AggregateArgument) (ctx : Context) (A B : List Record) :
    kind.Combine arg ctx A B (kind.reduce (A.filterMap (arg.numberOf? ctx)))
      (kind.reduce (B.filterMap (arg.numberOf? ctx))) (kind.reduce ((A ++ B).filterMap (arg.numberOf? ctx))) := by
  have whole (some : ∃ x ∈ (A ++ B).filterMap (arg.numberOf? ctx), x.isNaN = false) :=
    isExtreme_reduce kind some
  constructor
  case of_none =>
    intro none
    rw [List.filterMap_eq_nil_iff.mpr none]
    cases kind <;> rfl
  all_goals
    rw [List.filterMap_append] at whole ⊢
    simp only [AggregateArgument.hasNumber_iff]
    generalize A.filterMap (arg.numberOf? ctx) = xs at whole ⊢
    generalize B.filterMap (arg.numberOf? ctx) = ys at whole ⊢
  case of_both =>
    intro left right
    have both := (isExtreme_reduce kind left).append (isExtreme_reduce kind right)
    exact beq_of_isExtreme (whole ⟨_, both.mem, both.number⟩) both
  case of_first =>
    intro left none
    have first := (isExtreme_reduce kind left).of_subset (List.subset_append_left xs ys)
      fun y mem number => (List.mem_append.mp mem).resolve_right fun mem => none ⟨y, mem, number⟩
    exact beq_of_isExtreme (whole ⟨_, first.mem, first.number⟩) first
  case of_second =>
    intro none right
    have second := (isExtreme_reduce kind right).of_subset (List.subset_append_right xs ys)
      fun y mem number => (List.mem_append.mp mem).resolve_left fun mem => none ⟨y, mem, number⟩
    exact beq_of_isExtreme (whole ⟨_, second.mem, second.number⟩) second

end Extreme

/-- Where an argument has an answer over two lists of records it has one over both. The count of both is the
sum of the counts, up to as many records as a double counts. The smallest number of both is the smaller one
of two if both lists have numbers, and the one that there is if only one of them has; and so is the largest.
A count may be one of records, or have no argument. -/
theorem combine_over_split {count extreme : FunctionName} {kind : Extreme}
    (counting : count.spec.builtin = .count) (choosing : extreme.spec.builtin = kind.builtin)
    {first : List Token} (isFirst : Balanced first ∧ AllInside Token.isComma first) {arg : AggregateArgument}
    (parsed : AggregateArgument.parse first = .ok arg) (ctx : Context) (A B : List Record) :
    (∀ v w, count.over first ctx A = .ok v → count.over first ctx B = .ok w → A.length + B.length < 2 ^ 53 →
      ∃ a b both, v = .number a ∧ w = .number b ∧ count.over first ctx (A ++ B) = .ok (.number both) ∧
        (both == a + b) = true) ∧
    (first ≠ [] → ∀ v w, extreme.over first ctx A = .ok v → extreme.over first ctx B = .ok w →
      ∃ a b both, v = .number a ∧ w = .number b ∧ extreme.over first ctx (A ++ B) = .ok (.number both) ∧
        kind.Combine arg ctx A B a b both) := by
  have closed := isClosed_isComma_iff.mpr isFirst
  constructor
  · intro v w left right few
    obtain ⟨each, rfl⟩ := (evaluate_count counting closed parsed).mp left
    obtain ⟨each', rfl⟩ := (evaluate_count counting closed parsed).mp right
    have whole := (evaluate_count counting closed parsed).mpr ⟨List.forall_mem_append.mpr ⟨each, each'⟩, rfl⟩
    refine ⟨_, _, _, rfl, rfl, whole, ?_⟩
    have most : A.countP (arg.counts ctx) ≤ A.length := List.countP_le_length
    have most' : B.countP (arg.counts ctx) ≤ B.length := List.countP_le_length
    have added := (isWhole_ofNat (n := A.countP (arg.counts ctx)) (by omega)).add
      (isWhole_ofNat (n := B.countP (arg.counts ctx)) (by omega)) (by omega)
    rw [List.countP_append]
    refine beq_of_isWhole (isWhole_ofNat (by omega)) ?_
    rwa [Nat.cast_add]
  · intro full v w left right
    have isArgument : IsArgument first := isArgument_iff.mpr ⟨full, isFirst⟩
    have reduces : extreme.spec.builtin.reduction? = some kind.reduce := by
      rw [choosing]
      cases kind <;> rfl
    obtain ⟨valued, each, rfl⟩ := (evaluate_reduction reduces isArgument parsed).mp left
    obtain ⟨-, each', rfl⟩ := (evaluate_reduction reduces isArgument parsed).mp right
    have whole := (evaluate_reduction reduces isArgument parsed).mpr
      ⟨valued, List.forall_mem_append.mpr ⟨each, each'⟩, rfl⟩
    exact ⟨_, _, _, rfl, rfl, whole, kind.combine_reduce arg ctx A B⟩

/-- The count by its own name. -/
def countFunction : FunctionName where
  token := .function "COUNT"
  spec := { name := "COUNT", arity := ⟨0, some 1⟩, mode := .aggregate, builtin := .count
            description := "Number of matching records, or of non-null values"
            usage := "COUNT([* | value] [WHERE condition])" }
  isName := rfl
  found := by with_unfolding_all rfl

/-- The minimum by its own name. -/
def minimumFunction : FunctionName where
  token := .function "MIN"
  spec := { name := "MIN", arity := ⟨1, some 1⟩, mode := .aggregate, builtin := .minimum
            description := "Smallest numeric value over all matching records"
            usage := "MIN(value [WHERE condition])" }
  isName := rfl
  found := by with_unfolding_all rfl

/-- No records have a minimum of 0, which is not that of other records with them. -/
theorem no_records_leave_minimum :
    (∃ both, countFunction.over [.field "amount"] .simple ([5, 3].map amountRecord ++ []) = .ok (.number both) ∧
      (both == 2 + 0) = true) ∧
    minimumFunction.over [.field "amount"] .simple [] = .ok (.number 0) ∧
    ∃ both, minimumFunction.over [.field "amount"] .simple ([5, 3].map amountRecord ++ []) = .ok (.number both) ∧
      (both == 3) = true := by
  have isFirst : IsArgument [Token.field "amount"] := ⟨rfl, by simp⟩
  have each : ∀ record ∈ [5, 3].map amountRecord, amountArgument.WorksOut .simple record := by
    simp [worksOut_amount]
  have none : ∀ record ∈ ([] : List Record), amountArgument.WorksOut .simple record := by simp
  obtain ⟨counts, extremes⟩ := @combine_over_split countFunction minimumFunction .minimum rfl rfl _
    (isArgument_iff.mp isFirst).2 _ parse_amount .simple ([5, 3].map amountRecord) []
  have counted : ([5, 3].map amountRecord).countP (amountArgument.counts .simple) = 2 := by
    have counts (x : Float) : amountArgument.counts .simple (amountRecord x) = true := by
      rw [AggregateArgument.counts, if_neg (by decide), valueOf?_amountArgument, evaluate_amount]
      rfl
    simp [counts]
  have least : minimumFunction.over [.field "amount"] .simple [] = .ok (.number 0) :=
    (evaluate_reduction rfl isFirst parse_amount).mpr ⟨rfl, none, rfl⟩
  obtain ⟨a, b, both, left, right, whole, added⟩ := counts _ _
    ((evaluate_count rfl isFirst.closed parse_amount).mpr ⟨each, rfl⟩)
    ((evaluate_count rfl isFirst.closed parse_amount).mpr ⟨none, rfl⟩) (by decide)
  obtain ⟨a', b', both', left', -, whole', combined⟩ := extremes isFirst.full _ _
    ((evaluate_reduction rfl isFirst parse_amount).mpr ⟨rfl, each, rfl⟩) least
  obtain rfl := Value.number.inj left
  obtain rfl := Value.number.inj right
  obtain rfl := Value.number.inj left'
  rw [counted] at added
  have some : amountArgument.HasNumber .simple ([5, 3].map amountRecord) :=
    ⟨amountRecord 5, by simp, 5, numberOf?_amount 5, by decide +kernel⟩
  have lacking : ¬ amountArgument.HasNumber .simple [] := by
    rintro ⟨_, mem, -⟩
    exact absurd mem (by simp)
  have first := combined.of_first some lacking
  have three : Number.minimum [5, 3] = 3 := by decide +kernel
  rw [numbers_of_amounts, three] at first
  exact ⟨⟨both, whole, added⟩, least, both', whole', first⟩

end RecordFormula
