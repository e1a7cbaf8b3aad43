import RecordFormula.Formula
import RecordFormula.Proofs.Calls
import RecordFormula.Proofs.Conditions

/-!
# Names that a list reads

`fieldNames` collects the names of fields in one pass over a token list. Evaluation reads names in
arguments, in the values in front of conditions and in conditions. All of them are collected.

Results:
1. `fieldNames_arg`: what an argument of a call reads.
2. `fieldNames_value` and `mem_fieldNames_of_condition`: what the parts of an argument read.
-/

namespace RecordFormula

open CallsLemmas

namespace NamesLemmas

variable {front back ts : List Token} {name : String}

theorem fieldNames_cons_subset (t : Token) : fieldNames ts ⊆ fieldNames (t :: ts) := by
  cases t with
  | field name =>
    rw [fieldNames]
    split
    · exact List.subset_cons_self _ _
    · exact List.Subset.refl _
  | _ => exact List.Subset.refl _

theorem fieldNames_suffix {whole : List Token} (suffix : ts <:+ whole) :
    fieldNames ts ⊆ fieldNames whole := by
  obtain ⟨front, rfl⟩ := suffix
  induction front with
  | nil => exact List.Subset.refl _
  | cons t front ih => exact List.Subset.trans ih (fieldNames_cons_subset t)

theorem fieldNames_append (next : back.head? ≠ some (.operator .leftParen)) :
    fieldNames (front ++ back) = fieldNames front ++ fieldNames back := by
  induction front with
  | nil => rfl
  | cons t front ih =>
    cases t with
    | field name =>
      have starts : startsCall (.field name :: (front ++ back)) = startsCall (.field name :: front) :=
        startsCall_append (List.cons_ne_nil _ _) next
      rw [List.cons_append, fieldNames, fieldNames, starts, ih]
      split <;> rfl
    | _ => exact ih

theorem mem_fieldNames_head (reserved : isReserved name = false)
    (plain : startsCall (.field name :: ts) = false) : name ∈ fieldNames (.field name :: ts) := by
  rw [fieldNames, reserved, plain]
  exact List.mem_cons_self

end NamesLemmas

open NamesLemmas

section Call

variable {t : Token} {ts arg : List Token} {call : Call}

/-- What an argument reads is read in the list. -/
theorem fieldNames_arg (starts : startsCall (t :: ts) = true)
    (found : Call.read (t :: ts) = .ok call) (mem : arg ∈ call.args) :
    fieldNames arg ⊆ fieldNames (t :: ts) := by
  obtain ⟨behind, suffix, next⟩ := exists_behind_arg starts found mem
  refine List.Subset.trans ?_ (fieldNames_suffix suffix)
  rw [fieldNames_append next]
  exact List.subset_append_left _ _

end Call

section Argument

variable {arg value tokens : List Token}

/-- What the value in front of a condition reads is read in the argument. -/
theorem fieldNames_value (closed : isClosed Token.isComma 0 arg = true)
    (split : splitWhere arg = some (value, tokens)) : fieldNames value ⊆ fieldNames arg := by
  obtain ⟨behind, rfl, next⟩ := exists_behind_value closed split
  rw [fieldNames_append next]
  exact List.subset_append_left _ _

namespace NamesLemmas

theorem mem_fieldNames_of_comparison {written : List Token} {comparison : Comparison}
    (isWritten : comparison.IsWritten written) (rest : List Token) :
    comparison.field ∈ fieldNames (written ++ rest) := by
  cases isWritten with
  | @intro field op literal written free _ _ =>
    refine mem_fieldNames_head free ?_
    cases op <;> rfl

theorem mem_fieldNames_of_written {ts : List Token} {comparisons : List Comparison}
    (isWritten : Condition.IsWritten comparisons ts) {comparison : Comparison}
    (mem : comparison ∈ comparisons) : comparison.field ∈ fieldNames ts := by
  induction isWritten with
  | @last first ts isWritten =>
    obtain rfl := List.mem_singleton.mp mem
    have inFront := mem_fieldNames_of_comparison isWritten []
    rwa [List.append_nil] at inFront
  | @more first comparisons keyword front back isWritten _ _ ih =>
    rcases List.mem_cons.mp mem with rfl | mem
    · exact mem_fieldNames_of_comparison isWritten _
    · exact fieldNames_suffix ⟨front ++ [keyword], by simp⟩ (ih mem)

end NamesLemmas

/-- What a condition reads is read in the argument. -/
theorem mem_fieldNames_of_condition {condition : Condition} {comparison : Comparison}
    (closed : isClosed Token.isComma 0 arg = true)
    (split : splitWhere arg = some (value, tokens))
    (parsed : Condition.parse tokens = .ok condition) (mem : comparison ∈ condition.comparisons) :
    comparison.field ∈ fieldNames arg := by
  obtain ⟨keyword, -, rfl, -⟩ := splitWhereFrom_eq_some closed split
  have suffix : tokens <:+ value ++ keyword :: tokens := ⟨value ++ [keyword], by simp⟩
  refine fieldNames_suffix suffix ?_
  exact mem_fieldNames_of_written (Condition.written_of_parse parsed) mem

end Argument

end RecordFormula
