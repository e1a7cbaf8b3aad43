import RecordFormula.Evaluation
import RecordFormula.Validation

/-! # Engines

An engine holds a schema, limits and options, and takes an expression all the way from text to value.
It also runs one formula over many batches of records. A formula may be read by one engine and run by
another, so running it validates its text again, unless the engine is told to trust formulas; batches
are run without validation.
-/

namespace RecordFormula

structure Engine where
  limits : Limits := {}
  /-- Whether an absent field is an error. -/
  strict : Bool := false
  /-- Whether a formula is validated before it runs. -/
  validateFirst : Bool := true
  schema : Option Schema := none

/-- What a run over batches came to. -/
structure BatchStats where
  batches : Nat
  records : Nat
  succeeded : Nat
  failed : Nat
deriving DecidableEq, Repr

namespace Engine

/-- Screens and reads an expression. -/
def parse (engine : Engine) (expression : String) : Except FormulaError Formula :=
  RecordFormula.parse engine.limits expression

/-- Every problem of an expression and all advice on it. -/
def validate (engine : Engine) (expression : String) : Report :=
  RecordFormula.validate engine.limits engine.schema expression

/-- The context in which the engine evaluates. -/
def context (engine : Engine) (data : Data) : Context :=
  { data, schema := engine.schema, strict := engine.strict }

/-- The value of a formula, without validation. -/
def run (engine : Engine) (formula : Formula) (data : Data) : Except EvalError Value :=
  RecordFormula.execute formula (engine.context data)

/-- The value of a formula. A formula that is not valid is refused before any record is read. -/
def execute (engine : Engine) (formula : Formula) (data : Data) : Except FormulaError Value :=
  let report := engine.validate formula.expression
  if engine.validateFirst && !report.isValid then .error (.invalid report.problems)
  else (engine.run formula data).mapError .evaluation

/-- The value of an expression. -/
def evaluate (engine : Engine) (expression : String) (data : Data) : Except FormulaError Value := do
  engine.execute (← engine.parse expression) data

/-- The value of a formula, or a default if it has none. -/
def executeOrDefault (engine : Engine) (formula : Formula) (data : Data) (default : Value) : Value :=
  match engine.execute formula data with
  | .ok value => value
  | .error _ => default

/-- The value of a formula over each batch of records, in order, and how many there were. -/
def evaluateBatches (engine : Engine) (formula : Formula) (batches : List (List Record)) :
    List (Except EvalError Value) × BatchStats :=
  let results := batches.map fun records => engine.run formula (.many records)
  let succeeded := results.countP fun result => result.isOk
  (results,
    { batches := batches.length
      records := batches.flatten.length
      succeeded
      failed := results.length - succeeded })

end Engine

end RecordFormula
