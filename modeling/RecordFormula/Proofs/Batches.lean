import Mathlib.Algebra.GroupWithZero.Nat
import RecordFormula.Engine

/-!
# Batches

An engine runs a formula over batches of records without a look at the formula itself. Where it would not refuse
the formula, a batch comes to what the formula comes to over its records alone, whatever the other batches are.

Results:
1. `Engine.execute_of_trusted`: a formula that is not refused has the outcome of its run.
2. `Engine.batchResults_append` and `Engine.batchStats_append`: more batches add their results and their statistics.
3. `Engine.evaluateBatches_one_by_one`: what the results and the statistics of a run over batches are.
-/

namespace RecordFormula

attribute [ext] BatchStats

/-- The statistics of two runs together. -/
instance : Add BatchStats where
  add first second :=
    { batches := first.batches + second.batches
      records := first.records + second.records
      succeeded := first.succeeded + second.succeeded
      failed := first.failed + second.failed }

namespace Engine

variable (engine : Engine) (formula : Formula) (batches more : List (List Record))

/-- Whether an engine runs a formula: it does not validate formulas, or it finds this one valid. -/
def Trusts : Prop := engine.validateFirst = true → (engine.validate formula.expression).isValid = true

/-- The outcomes of a run over batches. -/
def batchResults : List (Except EvalError Value) := (engine.evaluateBatches formula batches).1

/-- The statistics of a run over batches. -/
def batchStats : BatchStats := (engine.evaluateBatches formula batches).2

variable {engine formula} in
/-- A formula that an engine does not refuse has the outcome of its run. -/
theorem execute_of_trusted (trusted : engine.Trusts formula) (data : Data) :
    engine.execute formula data = (engine.run formula data).mapError .evaluation := by
  have passes : (engine.validateFirst && !(engine.validate formula.expression).isValid) = false := by
    cases guarded : engine.validateFirst with
    | false => rfl
    | true => rw [trusted guarded]; rfl
  rw [execute]
  simp only [passes, Bool.false_eq_true, if_false]

theorem batchResults_eq :
    engine.batchResults formula batches = batches.map fun records => engine.run formula (.many records) := rfl

theorem length_batchResults : (engine.batchResults formula batches).length = batches.length := by
  rw [batchResults_eq, List.length_map]

theorem succeeded_add_failed :
    (engine.batchStats formula batches).succeeded + (engine.batchStats formula batches).failed = batches.length := by
  have some : (engine.batchResults formula batches).countP (·.isOk) ≤ (engine.batchResults formula batches).length :=
    List.countP_le_length
  show (engine.batchResults formula batches).countP (·.isOk) +
    ((engine.batchResults formula batches).length - (engine.batchResults formula batches).countP (·.isOk)) = _
  rw [Nat.add_sub_cancel' some, length_batchResults]

/-- Behind other batches, batches have the results that they have alone. -/
theorem batchResults_append :
    engine.batchResults formula (batches ++ more) =
      engine.batchResults formula batches ++ engine.batchResults formula more := by
  simp only [batchResults_eq, List.map_append]

/-- The statistics of batches are added to those of the batches in front of them. -/
theorem batchStats_append :
    engine.batchStats formula (batches ++ more) =
      engine.batchStats formula batches + engine.batchStats formula more := by
  have records : (batches ++ more).flatten.length = batches.flatten.length + more.flatten.length := by
    rw [List.flatten_append, List.length_append]
  have succeeded : (engine.batchStats formula (batches ++ more)).succeeded =
      (engine.batchStats formula batches).succeeded + (engine.batchStats formula more).succeeded := by
    show (engine.batchResults formula (batches ++ more)).countP _ = _
    rw [batchResults_append, List.countP_append]
    rfl
  have failed : (engine.batchStats formula (batches ++ more)).failed =
      (engine.batchStats formula batches).failed + (engine.batchStats formula more).failed := by
    have whole := succeeded_add_failed engine formula (batches ++ more)
    have first := succeeded_add_failed engine formula batches
    have second := succeeded_add_failed engine formula more
    rw [List.length_append] at whole
    omega
  exact BatchStats.ext List.length_append records succeeded failed

/-- A run over batches is a run over one batch after the other. There is one result for each batch, in order, and
it is what an engine that does not refuse the formula makes of the records of that batch alone. The statistics
count the batches, the records, the values and the failures. Behind other batches nothing changes: the results
follow theirs, and the statistics are added to theirs. -/
theorem evaluateBatches_one_by_one :
    (engine.batchResults formula batches).length = batches.length ∧
    (engine.Trusts formula → ∀ i : Nat,
      (engine.batchResults formula batches)[i]?.map (·.mapError .evaluation) =
        batches[i]?.map fun records => engine.execute formula (.many records)) ∧
    ((engine.batchStats formula batches).batches = batches.length ∧
      (engine.batchStats formula batches).records = (batches.map List.length).sum ∧
      (engine.batchStats formula batches).succeeded = (engine.batchResults formula batches).countP (·.isOk) ∧
      (engine.batchStats formula batches).succeeded + (engine.batchStats formula batches).failed =
        (engine.batchStats formula batches).batches) ∧
    engine.evaluateBatches formula (batches ++ more) =
      (engine.batchResults formula batches ++ engine.batchResults formula more,
        engine.batchStats formula batches + engine.batchStats formula more) := by
  refine ⟨length_batchResults .., fun trusted i => ?_,
    ⟨rfl, List.length_flatten, rfl, succeeded_add_failed ..⟩,
    Prod.ext (batchResults_append ..) (batchStats_append ..)⟩
  rw [batchResults_eq, List.getElem?_map, Option.map_map]
  exact congrArg (batches[i]?.map ·) (funext fun records => (execute_of_trusted trusted _).symm)

/-- What each record has of a hundred. -/
def share : Formula where
  expression := "100 / COUNT(*)"
  tokens := [.number 100, .operator .slash, .function "COUNT", .operator .leftParen, .operator .star,
    .operator .rightParen]

/-- A batch of one record, one of none and one of two. -/
def threeBatches : List (List Record) := [[.ofList []], [], [.ofList [], .ofList []]]

/-- There is nothing to share in a batch without records, and the batches around it have their values. -/
theorem share_in_threeBatches :
    Engine.Trusts {} share ∧
    (∀ i : Nat, (Engine.batchResults {} share threeBatches)[i]?.map (·.mapError .evaluation) =
      threeBatches[i]?.map fun records => Engine.execute {} share (.many records)) ∧
    Engine.execute {} share (.many []) = .error (.evaluation .divisionByZero) ∧
    Engine.batchStats {} share threeBatches = { batches := 3, records := 3, succeeded := 2, failed := 1 } := by
  have trusted : Engine.Trusts {} share := fun _ => by with_unfolding_all rfl
  refine ⟨trusted, (evaluateBatches_one_by_one {} share threeBatches []).2.1 trusted, ?_, ?_⟩
  · rw [execute_of_trusted trusted]
    with_unfolding_all rfl
  · with_unfolding_all rfl

end Engine

end RecordFormula
