import RecordFormula.Formula
import RecordFormula.Schema

/-! # Validation

Where reading an expression stops at the first problem, validation runs every check that still means
something and reports all problems and advice. Advice never makes an expression invalid. Only blanks
and unreadable tokens end it early; the structure is checked if the parentheses of the text balance.
-/

namespace RecordFormula

/-- The outcome of a validation. -/
structure Report where
  problems : List Problem
  advice : List Advice
deriving BEq, Repr

namespace Report

/-- Whether an expression can be used. -/
def isValid (report : Report) : Bool := report.problems.isEmpty

def hasAdvice (report : Report) : Bool := !report.advice.isEmpty

/-- The wording of the problems. -/
def errors (report : Report) : List String := report.problems.map Problem.message

/-- The wording of the advice. -/
def warnings (report : Report) : List String := report.advice.map Advice.message

end Report

/-- The fields that a schema does not know, in order. -/
def unknownFields (schema : Schema) (fields : List String) : List Problem :=
  ((Text.sort fields).filter fun name => !schema.contains name).map .unknownField

/-- Problems with the size of an expression. -/
def sizeProblems (limits : Limits) (tokens fields : Nat) : List Problem :=
  (if limits.maxTokens < tokens then [.tooManyTokens tokens limits.maxTokens] else []) ++
    if limits.maxFields < fields then [.tooManyFields fields limits.maxFields] else []

/-- Advice on the size of an expression. What is beyond a hard limit is a problem and needs none. -/
def sizeAdvice (limits : Limits) (tokens depth fields : Nat) : List Advice :=
  (if limits.warnTokens < tokens ∧ tokens ≤ limits.maxTokens then [.manyTokens tokens] else []) ++
    (if limits.warnNesting < depth ∧ depth ≤ limits.maxNesting then [.deepNesting depth] else []) ++
    if limits.warnFields < fields ∧ fields ≤ limits.maxFields then [.manyFields fields] else []

/-- The problem of a call: a function that is not there, or the wrong number of arguments. -/
def callProblems (site : CallSite) : List Problem :=
  match Catalog.standard.find? site.name with
  | none => [.call (.unsupportedFunction site.name)]
  | some spec =>
    match spec.checkArity site.argCount with
    | .ok _ => []
    | .error reason => [.call reason]

/-- Advice on functions that are used often, in the order of their names. -/
def repeatAdvice (limits : Limits) (sites : List CallSite) : List Advice :=
  let names := sites.map CallSite.name
  (Text.sort names.eraseDups).filterMap fun name =>
    let uses := names.count name
    if limits.warnRepeats < uses then some (.repeatedFunction name uses) else none

/-- The report on tokens whose text nests parentheses to a depth, or does not balance them. -/
def reportTokens (limits : Limits) (schema : Option Schema) (depth : Option Nat)
    (tokens : List Token) : Report :=
  let fields := fieldReferences tokens
  let sites := callSites tokens
  { problems :=
      (if depth.isSome then (structuralErrors tokens).map .parse else []) ++
        (schema.map (unknownFields · fields)).getD [] ++
        sizeProblems limits tokens.length fields.length ++
        sites.flatMap callProblems
    advice :=
      sizeAdvice limits tokens.length (depth.getD 0) fields.length ++ repeatAdvice limits sites }

/-- Every problem of an expression and all advice on it. -/
def validate (limits : Limits) (schema : Option Schema) (expression : String) : Report :=
  if isBlankText expression then { problems := [.parse .empty], advice := [] }
  else
    let screened := (screenErrors limits expression).map Problem.screen
    match tokenize expression with
    | .error reason => { problems := screened ++ [.parse reason], advice := [] }
    | .ok tokens =>
      let report := reportTokens limits schema (nestingDepth expression) tokens
      { report with problems := screened ++ report.problems }

end RecordFormula
