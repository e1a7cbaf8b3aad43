import RecordFormula.Proofs.CallSpans
import RecordFormula.Proofs.Parts

/-!
# Arguments of a well-formed list by themselves

A list is checked in one scan. What an evaluation works out is an argument of one of its calls, a list of
its own, which has not been checked. The scan comes to every call all the same: the one thing that it does
not read is a condition, and no call starts there.

Results:
1. `behind_where`: behind each `WHERE` of a well-formed list stands a condition, to the end of an argument.
2. `Sound.exists_of_suffix`: where a call starts in a list with such conditions the scan has come to it.
3. `arguments_wellFormed`: so the arguments of a well-formed list are well formed, but for conditions and
   the `*` of `COUNT(*)`.
-/

namespace RecordFormula

open NestingLemmas CallsLemmas CleanScanLemmas ArgumentsLemmas ConditionLemmas FiltersLemmas CallSpansLemmas

/-- A condition that goes as far as the argument does. -/
inductive StartsWithCondition : List Token → Prop
  | intro {tokens after : List Token} {condition : Condition} {closing : Operator} :
      Condition.parse tokens = .ok condition → (closing = .comma ∨ closing = .rightParen) →
      StartsWithCondition (tokens ++ .operator closing :: after)

/-- Every `WHERE` starts a condition. -/
def HasConditions (ts : List Token) : Prop :=
  ∀ t back, t :: back <:+ ts → t.isWhere = true → StartsWithCondition back

/-- In a well-formed list a filter goes up to the end of its argument. -/
theorem behind_where {ts : List Token} (wellFormed : structuralErrors ts = []) : HasConditions ts := by
  rintro t back ⟨front, rfl⟩ keyword
  obtain ⟨-, sound⟩ := structuralErrors_eq_nil_iff.mp wellFormed
  have whole : Sound (List.replicate 0 .group ++ []) .start none ((front ++ t :: back) ++ []) := by
    simpa using sound
  have here : (front ++ t :: back)[front.length]? = some t := by simp
  obtain ⟨place, arg, holds, filters⟩ := exists_filter sound.closed whole (fun inCall => by simp at inCall)
    (fun _ same => by simp at same) (by simp) here keyword
  obtain ⟨closing, after, behind, ends⟩ := holds.exists_behind
  obtain ⟨condition, parsed⟩ := filters.parsed
  rw [List.drop_left, List.drop_eq_getElem_cons holds.inside] at behind
  obtain ⟨-, rfl⟩ := List.cons.inj behind
  exact .intro parsed ends

/-! ## The way to a call -/

namespace WellFormedLemmas

variable {frames : List Frame} {previous : Previous} {before : Option Token} {t : Token}
  {ts front back tokens after target : List Token} {closing : Operator}

/-- No call starts in a list without parentheses, unless one stands behind it. -/
theorem suffix_of_flat (flat : ∀ t ∈ front, t.isParen = false)
    (next : back.head? ≠ some (.operator .leftParen)) (starts : startsCall target = true)
    (suffix : target <:+ front ++ back) : target <:+ back := by
  induction front with
  | nil => exact suffix
  | cons t front ih =>
    rcases List.suffix_cons_iff.mp suffix with rfl | suffix
    · obtain ⟨-, inner, behind⟩ := startsCall_iff.mp starts
      cases front with
      | nil => exact absurd (congrArg List.head? behind) next
      | cons s front =>
        obtain ⟨rfl, -⟩ := List.cons.inj behind
        have plain := flat (.operator .leftParen) (by simp)
        exact absurd plain (by simp [Token.isParen])
    · exact ih (fun t mem => flat t (List.mem_cons_of_mem _ mem)) suffix

theorem sound_of_where (sound : Sound frames previous before (t :: (tokens ++ .operator closing :: after)))
    (keyword : t.isWhere = true) (closed : isClosed Token.isComma 0 tokens = true)
    (ends : closing = .comma ∨ closing = .rightParen) :
    Sound frames .operand none (.operator closing :: after) := by
  have clean := clean_of_clause keyword sound.clean
  rw [argumentEnd_of_isClosed closed ends] at clean
  have front : isClosed Token.never 0 (t :: tokens) = true :=
    (isClosed_cons (Token.isParen_of_isWhere keyword)).mpr ⟨fun _ => rfl, isClosed_never closed⟩
  have whole : Sound frames previous before ((t :: tokens) ++ .operator closing :: after) := sound
  exact whole.behind front clean

theorem hasConditions_of_suffix (conditions : HasConditions ts) (suffix : back <:+ ts) :
    HasConditions back :=
  fun t behind inside keyword => conditions t behind (inside.trans suffix) keyword

end WellFormedLemmas

open WellFormedLemmas

/-- The scan of a list comes to every call of it, wherever it is nested. -/
theorem Sound.exists_of_suffix {frames : List Frame} {previous : Previous} {before : Option Token}
    {ts target : List Token} (sound : Sound frames previous before ts) (conditions : HasConditions ts)
    (suffix : target <:+ ts) (starts : startsCall target = true) :
    ∃ frames previous before, Sound frames previous before target := by
  -- On the length: the scan takes one token, or a `WHERE` with its condition.
  induction length : ts.length using Nat.strongRecOn generalizing ts frames previous before with
  | ind n ih =>
  subst length
  cases ts with
  | nil =>
    obtain rfl := List.suffix_nil.mp suffix
    exact absurd starts (by simp [startsCall])
  | cons t ts =>
  rcases List.suffix_cons_iff.mp suffix with rfl | inside
  · exact ⟨frames, previous, before, sound⟩
  · cases keyword : t.isWhere with
    | false =>
      obtain ⟨frames, previous, before, tail⟩ := sound.tail keyword
      exact ih _ (by simp) tail (hasConditions_of_suffix conditions (List.suffix_cons t ts)) inside rfl
    | true =>
      obtain @⟨tokens, after, condition, closing, parsed, ends⟩ :=
        conditions t ts (List.suffix_refl _) keyword
      have flat : ∀ s ∈ tokens, s.isParen = false :=
        fun s mem => (flat_of_condition (Condition.written_of_parse parsed) mem).1
      have next : (Token.operator closing :: after).head? ≠ some (.operator .leftParen) := by
        rcases ends with rfl | rfl <;> simp
      have behind : Token.operator closing :: after <:+ t :: (tokens ++ .operator closing :: after) :=
        ⟨t :: tokens, rfl⟩
      refine ih _ ?_ (sound_of_where sound keyword (isClosed_of_parse parsed) ends)
        (hasConditions_of_suffix conditions behind) (suffix_of_flat flat next starts inside) rfl
      simp only [List.length_cons, List.length_append]
      omega

/-- An argument of a sound list that has its `WHERE` inside parentheses only is well formed. -/
theorem SoundArgument.structuralErrors_eq_nil {function : String} {arg : List Token}
    (sound : SoundArgument function arg) (closed : isClosed Token.isComma 0 arg = true)
    (inside : AllInside Token.isWhere arg)
    (noWildcard : ¬ (function = "COUNT" ∧ arg = [.operator .star])) : structuralErrors arg = [] := by
  cases sound with
  | value _ errors => exact errors
  | wildcard count => exact absurd ⟨count, rfl⟩ noWildcard
  | filtered split _ _ _ =>
    obtain ⟨keyword, isWhere, rfl, valueClosed, -⟩ := splitWhereFrom_eq_some closed split
    have deep := inside _ keyword _ rfl isWhere
    have outside := (balanced_of_isClosed valueClosed).closed
    omega

/-- Each call of a well-formed list can be read, and none of its arguments is empty. An argument without a
`WHERE` of its own is a well-formed list, unless it is the `*` of `COUNT(*)`. -/
theorem arguments_wellFormed {ts : List Token} (wellFormed : structuralErrors ts = []) {index : Nat}
    (starts : isCallStart ts index = true) :
    ∃ call, Call.readAt ts index = .ok call ∧ ∀ arg ∈ call.args, arg ≠ [] ∧
      (AllInside Token.isWhere arg → ¬ (call.name = "COUNT" ∧ arg = [.operator .star]) →
        structuralErrors arg = []) := by
  rw [isCallStart] at starts
  obtain ⟨-, whole⟩ := structuralErrors_eq_nil_iff.mp wellFormed
  obtain ⟨frames, previous, before, sound⟩ :=
    whole.exists_of_suffix (behind_where wellFormed) (List.drop_suffix index ts) starts
  rw [Call.readAt]
  generalize ts.drop index = target at starts sound
  cases target with
  | nil => exact absurd starts (by simp [startsCall])
  | cons t ts =>
    obtain ⟨call, found, -⟩ := exists_call starts sound.closed
    have errors : callErrors call = [] := sound.calls { call with rest := [] } (mem_callsIn starts found)
    refine ⟨call, found, fun arg mem => ⟨(of_callErrors errors mem).1, ?_⟩⟩
    exact (sound.argument starts found mem).structuralErrors_eq_nil (isClosed_arg starts found mem)

/-- The filter of an inner call does not keep the argument around it from being well formed. -/
theorem roundedOverdue_arguments_wellFormed :
    structuralErrors roundedOverdue = [] ∧ isCallStart roundedOverdue 0 = true ∧
      ∃ call, Call.readAt roundedOverdue 0 = .ok call ∧
        call.args = [(roundedOverdue.take 10).drop 2, [.number 2]] ∧
        ∀ arg ∈ call.args, structuralErrors arg = [] := by
  have wellFormed : structuralErrors roundedOverdue = [] := by with_unfolding_all rfl
  obtain ⟨call, found, args⟩ := @arguments_wellFormed roundedOverdue wellFormed 0 rfl
  have written : (Call.readAt roundedOverdue 0).map Call.args =
      .ok [(roundedOverdue.take 10).drop 2, [.number 2]] := rfl
  rw [found] at written
  have same : call.args = [(roundedOverdue.take 10).drop 2, [.number 2]] := Except.ok.inj written
  refine ⟨wellFormed, rfl, call, found, same, fun arg mem => (args arg mem).2 ?_ ?_⟩
  · have closed : isClosed Token.isWhere 0 arg = true := by
      rw [same] at mem
      rcases List.mem_cons.mp mem with rfl | mem
      · with_unfolding_all rfl
      · obtain rfl := List.mem_singleton.mp mem
        rfl
    exact allInside_of_isClosed closed fun _ => Token.isParen_of_isWhere
  · rintro ⟨-, rfl⟩
    rw [same] at mem
    exact absurd mem (by simp [roundedOverdue])

end RecordFormula
