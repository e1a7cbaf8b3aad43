import RecordFormula.Proofs.TwoRuns

/-!
# Field references

The fields of a formula are collected from its tokens. Evaluation reads them in many places: as
operands, in the values of aggregates, in conditions and in the arguments of inner calls.

Result: `execute_eq_of_fields`: a formula depends on its fields only, and with a schema on the names
that stand in for them.
-/

namespace RecordFormula

/-- Two inputs of one shape whose records correspond. -/
inductive Data.Corresponds (R : Record → Record → Prop) : Data → Data → Prop
  | single {record other : Record} : R record other → Corresponds R (.single record) (.single other)
  | many {records others : List Record} :
      List.Forall₂ R records others → Corresponds R (.many records) (.many others)

/-- Two records that hold the same, or nothing both, under each of the names and under each name that
a schema lets stand in for one of them. -/
def SameUnder (schema : Option Schema) (names : List String) (record other : Record) : Prop :=
  ∀ name ∈ names, record.get? name = other.get? name ∧
    ∀ declared, schema = some declared → ∀ standIn ∈ declared.aliasesOf name,
      record.get? standIn = other.get? standIn

namespace ReferencesLemmas

variable {schema : Option Schema} {names : List String} {record other : Record}

theorem findSome?_eq {names : List String}
    (same : ∀ name ∈ names, record.get? name = other.get? name) :
    names.findSome? record.get? = names.findSome? other.get? := by
  induction names with
  | nil => rfl
  | cons name names ih =>
    rw [List.findSome?_cons, List.findSome?_cons, same name List.mem_cons_self,
      ih fun name mem => same name (List.mem_cons_of_mem _ mem)]

theorem resolve_eq {name : String} (same : SameUnder schema names record other) (mem : name ∈ names) :
    (Resolver.ofSchema schema).resolve other name = (Resolver.ofSchema schema).resolve record name := by
  obtain ⟨value, standIns⟩ := same name mem
  cases schema with
  | none => exact value.symm
  | some declared =>
    show declared.lookup other name = declared.lookup record name
    rw [Schema.lookup, Schema.lookup, value, findSome?_eq (standIns declared rfl)]

/-- Contexts with one schema read the same in the two records, whatever their data. -/
theorem sameReads_of_sameUnder {allowed : EvalError → Prop} {data data' : Data} (strict : Bool)
    (same : SameUnder schema names record other) :
    SameReads allowed (· ∈ names) { data, schema, strict } { data := data', schema, strict } record other := by
  intro name mem
  rw [Context.lookup, Context.lookup, Context.resolve, Context.resolve, resolve_eq same mem]
  exact .self SameValue.refl _

theorem alike_of_corresponds {allowed : EvalError → Prop} {data other : Data} (strict : Bool)
    (same : Data.Corresponds (SameUnder schema names) data other) :
    Alike allowed (· ∈ names) { data, schema, strict } { data := other, schema, strict } := by
  cases same with
  | @single record other same =>
    have inRecord : SameReads allowed (· ∈ names) { data := .single record, schema, strict }
        { data := .single other, schema, strict } record other :=
      sameReads_of_sameUnder strict same
    exact Alike.forRecord inRecord
  | many same => exact ⟨fun _ _ => .error, same.imp fun _ _ => sameReads_of_sameUnder strict⟩

end ReferencesLemmas

open ReferencesLemmas

/-- A formula over two inputs of one shape has the same value, or fails for the same reason, if their
records hold the same under the fields of the formula and what stands in for them. The other fields
may hold anything. -/
theorem execute_eq_of_fields (formula : Formula) (schema : Option Schema) (strict : Bool)
    {data other : Data} (same : Data.Corresponds (SameUnder schema formula.fields) data other) :
    execute formula { data, schema, strict } = execute formula { data := other, schema, strict } := by
  have read : ∀ name ∈ fieldNames formula.tokens, name ∈ formula.fields := by
    intro name mem
    rwa [Formula.fields, fieldReferences, List.mem_eraseDups]
  have evaluated : Follows (fun _ => False) Eq (evaluate formula.tokens { data, schema, strict })
      (evaluate formula.tokens { data := other, schema, strict }) :=
    evaluate_follows read _ _ (alike_of_corresponds strict same)
  rw [execute, execute, evaluated.eq_of_never]

/-- The total of the balances that are overdue. -/
def overdueTotal : Formula where
  expression := "SUM(amount WHERE dpd > 0)"
  tokens := [.function "SUM", .operator .leftParen, .field "amount", .field "WHERE", .field "dpd",
    .operator .greater, .number 0, .operator .rightParen]

/-- A remark in a record does not change the total, which finds the amounts under another name. -/
theorem overdueTotal_ignores_remarks :
    execute overdueTotal
        { data := .many [.ofList [("outstanding_balance", .number 7), ("remark", .text "late")]]
          schema := some Schema.empty } =
      execute overdueTotal
        { data := .many [.ofList [("outstanding_balance", .number 7), ("remark", .null)]]
          schema := some Schema.empty } := by
  refine execute_eq_of_fields overdueTotal (some .empty) false (.many (.cons ?_ .nil))
  have fields : overdueTotal.fields = ["amount", "dpd"] := by decide
  intro name mem
  rw [fields] at mem
  refine ⟨?_, fun declared isEmpty standIn offered => ?_⟩
  · rcases List.mem_cons.mp mem with rfl | mem
    · rfl
    · obtain rfl := List.mem_singleton.mp mem
      rfl
  · obtain rfl := Option.some.inj isEmpty
    rcases List.mem_cons.mp mem with rfl | mem
    · obtain rfl := List.mem_singleton.mp offered
      rfl
    · obtain rfl := List.mem_singleton.mp mem
      have none : Schema.empty.aliasesOf "dpd" = [] := by decide
      rw [none] at offered
      exact absurd offered List.not_mem_nil

end RecordFormula
