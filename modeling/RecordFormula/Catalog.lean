import RecordFormula.Error
import RecordFormula.Text.Case
import RecordFormula.Text.Order

/-! # The function catalog

A function is known by its name in upper case. Its entry says how many arguments it takes, how it
consumes records and which built-in computes it; what each built-in computes is defined with the
evaluation. The standard catalog is the one that expressions are read and evaluated with.
-/

namespace RecordFormula

/-- How a function consumes its input. -/
inductive FunctionMode where
  /-- Reduces the records to one value. -/
  | aggregate
  /-- Works on values that are reduced already. -/
  | scalar
  /-- Works on one record inside an aggregate and on reduced values outside. -/
  | mixed
deriving DecidableEq, Repr

/-- What a function computes. -/
inductive Builtin where
  | sum | average | count | minimum | maximum | movingAverage
  | choose
  | ratio | percentage | growthRate
deriving DecidableEq, Repr

/-- An entry of the catalog. -/
structure FunctionSpec where
  name : String
  arity : Arity
  mode : FunctionMode
  description : String
  usage : String
  builtin : Builtin
deriving DecidableEq, Repr

/-- Whether a call with this many arguments is allowed. -/
def FunctionSpec.checkArity (spec : FunctionSpec) (count : Nat) : Except EvalError Unit :=
  if spec.arity.accepts count then .ok () else .error (.argumentCount spec.name spec.arity count)

/-- Functions under their upper-case names. -/
structure Catalog where
  entries : List (String × FunctionSpec)
deriving DecidableEq, Repr

namespace Catalog

/-- The function of a name, in any letter case. -/
def find? (catalog : Catalog) (name : String) : Option FunctionSpec :=
  catalog.entries.lookup (Text.uppercase name)

/-- Adds a function, in place of one with the same name. -/
def register (catalog : Catalog) (spec : FunctionSpec) : Catalog :=
  let key := Text.uppercase spec.name
  ⟨(key, spec) :: catalog.entries.filter fun entry => entry.1 != key⟩

/-- The functions in the order of their names. -/
def sorted (catalog : Catalog) : List FunctionSpec :=
  Text.sortOn FunctionSpec.name (catalog.entries.map Prod.snd)

/-- The number of functions. -/
def size (catalog : Catalog) : Nat := catalog.entries.length

def isEmpty (catalog : Catalog) : Bool := catalog.entries.isEmpty

/-- The built-in functions. -/
def standardFunctions : List FunctionSpec := [
  { name := "SUM", arity := ⟨1, some 1⟩, mode := .aggregate, builtin := .sum
    description := "Sum of a value over all matching records"
    usage := "SUM(value [WHERE condition])" },
  { name := "AVG", arity := ⟨1, some 1⟩, mode := .aggregate, builtin := .average
    description := "Mean of the numeric values over all matching records"
    usage := "AVG(value [WHERE condition])" },
  { name := "COUNT", arity := ⟨0, some 1⟩, mode := .aggregate, builtin := .count
    description := "Number of matching records, or of non-null values"
    usage := "COUNT([* | value] [WHERE condition])" },
  { name := "MIN", arity := ⟨1, some 1⟩, mode := .aggregate, builtin := .minimum
    description := "Smallest numeric value over all matching records"
    usage := "MIN(value [WHERE condition])" },
  { name := "MAX", arity := ⟨1, some 1⟩, mode := .aggregate, builtin := .maximum
    description := "Largest numeric value over all matching records"
    usage := "MAX(value [WHERE condition])" },
  { name := "MOVING_AVG", arity := ⟨2, some 2⟩, mode := .aggregate, builtin := .movingAverage
    description := "Mean of the last `window` numeric values, 0 if there are fewer"
    usage := "MOVING_AVG(value [WHERE condition], window)" },
  { name := "IF", arity := ⟨3, some 3⟩, mode := .mixed, builtin := .choose
    description := "Choose between two values on a condition"
    usage := "IF(condition, then, else)" },
  { name := "RATIO", arity := ⟨2, some 2⟩, mode := .scalar, builtin := .ratio
    description := "numerator / denominator, 0 when the denominator is 0"
    usage := "RATIO(numerator, denominator)" },
  { name := "PERCENTAGE", arity := ⟨2, some 2⟩, mode := .scalar, builtin := .percentage
    description := "part / whole * 100, 0 when the whole is 0"
    usage := "PERCENTAGE(part, whole)" },
  { name := "GROWTH_RATE", arity := ⟨2, some 2⟩, mode := .scalar, builtin := .growthRate
    description := "(current - previous) / previous * 100, 0 when previous is 0"
    usage := "GROWTH_RATE(current, previous)" }]

/-- The catalog of the built-in functions. -/
def standard : Catalog := ⟨standardFunctions.map fun spec => (spec.name, spec)⟩

end Catalog

/-- Whether a word names a built-in function. -/
def isFunctionName (word : String) : Bool := (Catalog.standard.find? word).isSome

end RecordFormula
