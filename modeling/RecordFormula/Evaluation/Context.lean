import RecordFormula.Condition
import RecordFormula.Schema

/-! # Evaluation contexts

What an evaluation can see: the data, how names are looked up in a record, and whether an absent field is
an error. A name outside the aggregates is read from the single record; over a list of records it has no
meaning.
-/

namespace RecordFormula

/-- A way to look names up in a record. -/
structure Resolver where
  resolve : Record → String → Option FieldValue

namespace Resolver

/-- A name is looked up as it is. -/
def direct : Resolver := ⟨Record.get?⟩

/-- With a schema a name is also looked up under the names that stand in for it. -/
def ofSchema : Option Schema → Resolver
  | none => direct
  | some schema => ⟨schema.lookup⟩

instance : Coe (Option Schema) Resolver := ⟨ofSchema⟩

end Resolver

structure Context where
  data : Data
  /-- How names are looked up: with a schema, with none, or in any other way. -/
  schema : Resolver := .direct
  /-- Whether an absent field is an error and not null. -/
  strict : Bool := false

namespace Context

/-- No records at all. -/
def simple : Context := { data := .many [] }

/-- The same context for one record. -/
def forRecord (ctx : Context) (record : Record) : Context := { ctx with data := .single record }

/-- What a record holds for a name. -/
def resolve (ctx : Context) (record : Record) (name : String) : Option FieldValue :=
  ctx.schema.resolve record name

/-- What a record holds for a name, an absent field being an error in strict contexts. -/
def lookup (ctx : Context) (record : Record) (name : String) :
    Except EvalError (Option FieldValue) :=
  match ctx.resolve record name with
  | some value => .ok (some value)
  | none => if ctx.strict then .error (.missingField name) else .ok none

/-- The value of a name outside the aggregates. -/
def fieldValue (ctx : Context) (name : String) : Except EvalError Value :=
  match ctx.data.record? with
  | none => .error (.noRecordContext name)
  | some record => do
    let value ← ctx.lookup record name
    pure (Value.ofField (value.getD .null))

/-- Whether a record passes every comparison. The first that it fails ends the test, so the fields of
the later ones are not looked up. -/
def passes (ctx : Context) (record : Record) : List Comparison → Except EvalError Bool
  | [] => .ok true
  | comparison :: comparisons => do
    let value ← ctx.lookup record comparison.field
    if comparison.accepts (value.getD .null) then ctx.passes record comparisons else pure false

/-- Whether a record passes a condition. -/
def satisfies (ctx : Context) (condition : Condition) (record : Record) : Except EvalError Bool :=
  ctx.passes record condition.comparisons

/-- The records that pass a condition, in order. -/
def select (ctx : Context) (condition : Condition) : List Record → Except EvalError (List Record)
  | [] => .ok []
  | record :: records => do
    let keep ← ctx.satisfies condition record
    let rest ← ctx.select condition records
    pure (if keep then record :: rest else rest)

end Context

end RecordFormula
