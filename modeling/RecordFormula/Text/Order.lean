/-! # Order of names

Names are put in the order of their code points. The sort is stable.
-/

namespace RecordFormula.Text

/-- A list in the order of the names of its members. -/
def sortOn {α : Type} (name : α → String) (xs : List α) : List α :=
  xs.mergeSort fun a b => decide (name a ≤ name b)

/-- Names in order. -/
def sort (names : List String) : List String := sortOn id names

/-- Sorting only rearranges. -/
theorem sortOn_perm {α : Type} (name : α → String) (xs : List α) : (sortOn name xs).Perm xs :=
  List.mergeSort_perm _ _

end RecordFormula.Text
