import RecordFormula.Engine
import RecordFormula.Record.Json
import RecordFormula.Proofs.Nesting
import RecordFormula.Proofs.Calls
import RecordFormula.Proofs.CleanScan
import RecordFormula.Proofs.Arguments
import RecordFormula.Proofs.Failure
import RecordFormula.Proofs.Rows
import RecordFormula.Proofs.Names
import RecordFormula.Proofs.Lockstep
import RecordFormula.Proofs.TwoRuns
import RecordFormula.Proofs.References
import RecordFormula.Proofs.Checked
import RecordFormula.Proofs.CallFree
import RecordFormula.Proofs.Overlooked
import RecordFormula.Proofs.Trees
import RecordFormula.Proofs.Precedence
import RecordFormula.Proofs.TreeCalls
import RecordFormula.Proofs.TreeEvaluation
import RecordFormula.Proofs.Validity
import RecordFormula.Proofs.ScanSteps
import RecordFormula.Proofs.Parentheses
import RecordFormula.Proofs.Parts
import RecordFormula.Proofs.Dispatch
import RecordFormula.Proofs.Declared
import RecordFormula.Proofs.Lexemes
import RecordFormula.Proofs.Signatures
import RecordFormula.Proofs.Comparisons
import RecordFormula.Proofs.RecordLists
import RecordFormula.Proofs.AbsentFields
import RecordFormula.Proofs.Filters
import RecordFormula.Proofs.Doubles
import RecordFormula.Proofs.Rounding
import RecordFormula.Proofs.Decimals
import RecordFormula.Proofs.Amounts
import RecordFormula.Proofs.MoneySums
import RecordFormula.Proofs.EvaluationDepth
import RecordFormula.Proofs.Engines
import RecordFormula.Proofs.Spellings
import RecordFormula.Proofs.Joining
import RecordFormula.Proofs.UnreadableTexts
import RecordFormula.Proofs.ErrorKinds
import RecordFormula.Proofs.Renaming
import RecordFormula.Proofs.Aliases
import RecordFormula.Proofs.NameCase
import RecordFormula.Proofs.ScreenCase
import RecordFormula.Proofs.LetterCase
import RecordFormula.Proofs.CallSpans
import RecordFormula.Proofs.WellFormedArguments
import RecordFormula.Proofs.Groups
import RecordFormula.Proofs.Quotients
import RecordFormula.Proofs.NumberOrder
import RecordFormula.Proofs.Branches
import RecordFormula.Proofs.RecordValues
import RecordFormula.Proofs.WholeNumbers
import RecordFormula.Proofs.MovingAverages
import RecordFormula.Proofs.Splits
import RecordFormula.Proofs.DecimalSums
import RecordFormula.Proofs.WholeSums
import RecordFormula.Proofs.ComparisonLaws
import RecordFormula.Proofs.LowerCase
import RecordFormula.Proofs.Equality
import RecordFormula.Proofs.Batches
import RecordFormula.Proofs.Conversions
import RecordFormula.Proofs.RoundedTotals
import RecordFormula.Proofs.DecimalDoubles
import RecordFormula.Proofs.SumErrors
import RecordFormula.Proofs.Registrations
import RecordFormula.Proofs.FunctionNames
import RecordFormula.Proofs.CallSites
