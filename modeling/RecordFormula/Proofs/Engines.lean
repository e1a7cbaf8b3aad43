import RecordFormula.Engine
import RecordFormula.Proofs.Validity

/-!
# Engines and stored formulas

A formula may be stored and run later by an engine with other limits, other options and another schema than
where it was read. Before it runs, an engine that validates looks at its text, and then evaluates the tokens
that came with it.

Results:
1. `parse_again`: limits decide whether a stored formula can be read again, but not as what.
2. `Engine.execute_of_unread`: what cannot be read is refused for the same problems whatever the data.
3. `Engine.stored_formula_runs_as_text`: an engine makes of a stored formula what it makes of its text.
-/

namespace RecordFormula

open ValidityLemmas

/-- What was read under some limits is read again as the same formula, if it is read at all. -/
theorem parse_again {limits other : Limits} {expression : String} {formula again : Formula}
    (parsed : parse other expression = .ok formula)
    (reparsed : parse limits formula.expression = .ok again) : again = formula := by
  have isRead := parse_eq_ok_iff.mp parsed
  rw [isRead.written] at reparsed
  exact eq_of_isRead (parse_eq_ok_iff.mp reparsed) isRead

namespace Engine

variable {engine : Engine} {formula : Formula} {error : FormulaError}

/-- An engine that validates refuses a formula whose text it cannot read, before it looks at the data. -/
theorem execute_of_unread (failed : engine.parse formula.expression = .error error)
    (guarded : engine.validateFirst = true) (data : Data) :
    engine.execute formula data = .error (.invalid (engine.validate formula.expression).problems) := by
  have fault := parse_eq_error_iff.mp failed
  have invalid : (engine.validate formula.expression).isValid = false :=
    not_isValid_of_firstFault engine.schema fault
  rw [execute]
  simp only [guarded, invalid, Bool.not_false, Bool.and_self, if_true]

/-- The first problem of a text that an engine cannot read has the wording of the cause. -/
theorem head_problems_of_unread (failed : engine.parse formula.expression = .error error) :
    (∃ reason, error = .screen reason ∧
      ((engine.validate formula.expression).problems.map Problem.message).head? =
        some reason.message) ∨
    ∃ reason, error = .parse reason ∧
      ((engine.validate formula.expression).problems.map Problem.message).head? =
        some reason.message := by
  have fault := parse_eq_error_iff.mp failed
  rcases head_problems engine.schema fault with ⟨reason, same, head⟩ | ⟨reason, same, head⟩
  · exact .inl ⟨reason, same, head_errors head⟩
  · exact .inr ⟨reason, same, head_errors head⟩

/-- A formula that was read under whatever limits and its text are alike to an engine. If the engine can read
the text, both have the same outcome over all data. If it cannot, and validates formulas, then it refuses the
formula for the same problems over all data, and the first of them has the wording of what stops the reading. -/
theorem stored_formula_runs_as_text (engine : Engine) {other : Limits} {expression : String}
    {formula : Formula} (parsed : RecordFormula.parse other expression = .ok formula) :
    (∀ again, engine.parse formula.expression = .ok again →
      ∀ data, engine.evaluate formula.expression data = engine.execute formula data) ∧
    ∀ error, engine.parse formula.expression = .error error → engine.validateFirst = true →
      ∃ problems, (∀ data, engine.execute formula data = .error (.invalid problems)) ∧
        ((∃ reason, error = .screen reason ∧
            (problems.map Problem.message).head? = some reason.message) ∨
          ∃ reason, error = .parse reason ∧
            (problems.map Problem.message).head? = some reason.message) := by
  constructor
  · intro again reparsed data
    obtain rfl := parse_again parsed reparsed
    rw [evaluate, reparsed]
    rfl
  · intro error failed guarded
    exact ⟨_, execute_of_unread failed guarded, head_problems_of_unread failed⟩

/-- The number of the records. -/
def recordCount : Formula where
  expression := "COUNT(*)"
  tokens := [.function "COUNT", .operator .leftParen, .operator .star, .operator .rightParen]

/-- An engine for expressions of up to five characters. -/
def brief : Engine := { limits := { maxLength := 5 } }

/-- The number of the records runs in an engine as its text does. An engine for shorter expressions refuses
it for its length, over whatever records. -/
theorem recordCount_in_two_engines :
    (∀ data, Engine.evaluate {} "COUNT(*)" data = Engine.execute {} recordCount data) ∧
    ∃ problems, (∀ data, brief.execute recordCount data = .error (.invalid problems)) ∧
      (problems.map Problem.message).head? = some "Expression is too long: 8 characters (max 5)" := by
  have parsed : RecordFormula.parse {} "COUNT(*)" = .ok recordCount := by with_unfolding_all rfl
  have failed : brief.parse recordCount.expression = .error (.screen (.tooLong 8 5)) := by
    with_unfolding_all rfl
  refine ⟨(stored_formula_runs_as_text {} parsed).1 _ parsed, ?_⟩
  obtain ⟨problems, refused, head⟩ := (stored_formula_runs_as_text brief parsed).2 _ failed rfl
  refine ⟨problems, refused, ?_⟩
  rcases head with ⟨reason, same, head⟩ | ⟨reason, same, -⟩
  · obtain rfl := FormulaError.screen.inj same
    exact head
  · exact absurd same (by simp)

end Engine

end RecordFormula
