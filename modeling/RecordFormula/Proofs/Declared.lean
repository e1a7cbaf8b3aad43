import RecordFormula.Proofs.Dispatch

/-!
# Declared fields

A validation with a schema asks of each field in the tokens whether it is declared, or else a name that
stands in for it. An evaluation looks for fields where it needs them, in operands, in the values of
aggregates and in conditions. If each record has the declared fields, it finds what the validation let
pass.

Results:
1. `isSome_lookup`: a name that a schema knows is found in a record with the declared fields.
2. `execute_strict`: over such records a strict evaluation is no different from one that is not.
3. `no_missingField_of_declared`: so a valid expression misses no field.
-/

namespace RecordFormula

/-- Whether every record holds something, if only null, under every name that a schema declares. -/
def Schema.IsCoveredBy (schema : Schema) (data : Data) : Prop :=
  ∀ record ∈ data.records, ∀ name ∈ schema.fields, record.contains name = true

namespace DeclaredLemmas

variable {schema : Schema} {data : Data} {record : Record} {name : String}
  {allowed : EvalError → Prop} {reads : String → Prop} {first second : Context}

/-- What a schema knows it finds, under the name itself or under one that stands in for it. -/
theorem isSome_lookup (knows : schema.contains name = true)
    (covered : ∀ declared ∈ schema.fields, record.contains declared = true) :
    (schema.lookup record name).isSome = true := by
  rw [Schema.contains, Bool.or_eq_true, List.contains_iff_mem, List.any_eq_true] at knows
  rw [Schema.lookup, Option.orElse_eq_orElse, Option.orElse_eq_or, Option.isSome_or, Bool.or_eq_true]
  rcases knows with declared | ⟨standIn, offered, declared⟩
  · exact .inl (covered name declared)
  · refine .inr (List.findSome?_isSome_iff.mpr ⟨standIn, offered, ?_⟩)
    exact covered standIn (List.contains_iff_mem.mp declared)

theorem lookup_of_isSome {ctx : Context} (isSchema : ctx.schema = some schema)
    (found : (schema.lookup record name).isSome = true) :
    ctx.lookup record name = .ok (schema.lookup record name) := by
  obtain ⟨value, found⟩ := Option.isSome_iff_exists.mp found
  have resolved : ctx.resolve record name = some value := by
    rw [Context.resolve, isSchema]
    exact found
  rw [Context.lookup, resolved, found]

theorem alike_of_lookup (sameData : second.data = first.data)
    (same : ∀ record ∈ first.data.records, ∀ name, reads name →
      second.lookup record name = first.lookup record name) : Alike allowed reads first second where
  field name isRead := by
    rw [Context.fieldValue, Context.fieldValue, sameData]
    cases shape : first.data with
    | many records => exact .error
    | single record =>
      have here : record ∈ first.data.records := by
        rw [shape]
        exact List.mem_singleton_self record
      simp only [Data.record?, same record here name isRead]
      exact .refl _
  records := by
    rw [sameData]
    refine List.forall₂_same.mpr fun record here name isRead => ?_
    rw [same record here name isRead]
    exact .self SameValue.refl _

end DeclaredLemmas

open DeclaredLemmas

/-- Where a schema knows the fields of a formula and the records have what it declares, a formula has the
same value, or fails for the same reason, whether or not absent fields are errors. -/
theorem execute_strict {formula : Formula} {schema : Schema} {data : Data}
    (known : ∀ name ∈ formula.fields, schema.contains name = true)
    (covered : schema.IsCoveredBy data) :
    execute formula { data, schema := some schema, strict := true } =
      execute formula { data, schema := some schema } := by
  have alike : Alike (fun _ => False) (· ∈ formula.fields)
      { data, schema := some schema, strict := true } { data, schema := some schema } := by
    refine alike_of_lookup rfl fun record here name mem => ?_
    have found := isSome_lookup (known name mem) (covered record here)
    rw [lookup_of_isSome rfl found, lookup_of_isSome rfl found]
  exact (execute_follows formula alike).eq_of_never

/-- An expression that is valid against a schema misses no field in records that have what the schema
declares, however strict the context. -/
theorem no_missingField_of_declared {limits other : Limits} {schema : Schema} {expression : String}
    {formula : Formula} {data : Data}
    (valid : (validate limits (some schema) expression).isValid = true)
    (parsed : parse other expression = .ok formula) (covered : schema.IsCoveredBy data)
    (name : String) :
    execute formula { data, schema := some schema, strict := true } ≠ .error (.missingField name) := by
  intro failed
  have usable := usable_of_isValid valid parsed
  rw [execute_strict (usable.known schema rfl) covered] at failed
  have strict := DispatchLemmas.onlyFails_execute valid parsed _ _ failed
  exact absurd strict (by simp [Remains])

/-- A schema that declares balances under the name that stands in for amounts. -/
def balances : Schema := { Schema.empty with fields := ["outstanding_balance"] }

/-- The total of the amounts. -/
def amountTotal : Formula where
  expression := "SUM(amount)"
  tokens := [.function "SUM", .operator .leftParen, .field "amount", .operator .rightParen]

/-- The total is valid for balances. In a record without one it misses the amount, and in a record where
the balance is null it does not. -/
theorem amountTotal_finds_balance :
    execute amountTotal { data := .many [.empty], schema := some balances, strict := true } =
        .error (.missingField "amount") ∧
      execute amountTotal
        { data := .many [.ofList [("outstanding_balance", .null)]]
          schema := some balances, strict := true } ≠
        .error (.missingField "amount") := by
  have valid : (validate {} (some balances) amountTotal.expression).isValid = true := by
    with_unfolding_all rfl
  have parsed : parse {} amountTotal.expression = .ok amountTotal := by with_unfolding_all rfl
  refine ⟨by with_unfolding_all rfl, no_missingField_of_declared valid parsed ?_ "amount"⟩
  intro record here name declared
  obtain rfl := List.mem_singleton.mp here
  obtain rfl := List.mem_singleton.mp declared
  decide

end RecordFormula
