/-! # Limits

Bounds on the size and complexity of an expression. A hard limit makes an expression invalid; beyond
a soft one it is only advised against. The hard limits bound the cost of one evaluation.
-/

namespace RecordFormula

structure Limits where
  /-- Characters. -/
  maxLength : Nat := 1000
  /-- Levels of nested parentheses. -/
  maxNesting : Nat := 10
  /-- Levels of nested parentheses before advice is given. -/
  warnNesting : Nat := 5
  /-- Tokens. -/
  maxTokens : Nat := 100
  /-- Tokens before advice is given. -/
  warnTokens : Nat := 50
  /-- Distinct field names. -/
  maxFields : Nat := 20
  /-- Distinct field names before advice is given. -/
  warnFields : Nat := 10
  /-- Uses of one function before advice is given. -/
  warnRepeats : Nat := 5
deriving DecidableEq, Repr, Inhabited

end RecordFormula
