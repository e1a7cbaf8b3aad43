import RecordFormula.Proofs.Comparisons
import RecordFormula.Proofs.References

/-!
# Absent fields

A strict context fails at a field that is not there, and any other reads null. Which fields an evaluation
comes to depends on the data: a condition stops at the first comparison that fails, and `IF` works out one
branch only. So the two kinds of context part at a read or not at all. A context that is not strict does
not tell a field that is not there from one that holds null.

Results:
1. `alike_strict`: the two contexts are alike unless a record lacks a field.
2. `execute_strict_or_missing`: a strict run gives what the other gives, or misses a field of the
   formula that some record lacks.
3. `evaluate_eq_of_nulls`: where absent fields are no error, nulls can be put into records or left out.
-/

namespace RecordFormula

/-- Why a strict run may end early: one of the names is missing from some record. -/
def Misses (ctx : Context) (names : List String) (reason : EvalError) : Prop :=
  ∃ name ∈ names, reason = .missingField name ∧
    ∃ record ∈ ctx.data.records, ctx.resolve record name = none

namespace AbsentFieldsLemmas

variable {data : Data} {resolver : Resolver} {names : List String}

/-- At a name the strict context finds what the other finds, or misses it. -/
theorem lookup_follows {record : Record} {name : String} (here : record ∈ data.records)
    (mem : name ∈ names) :
    Follows (Misses { data, schema := resolver } names) SameValue
      (({ data, schema := resolver } : Context).lookup record name)
      (({ data, schema := resolver, strict := true } : Context).lookup record name) := by
  have same : ({ data, schema := resolver, strict := true } : Context).resolve record name =
      ({ data, schema := resolver } : Context).resolve record name := rfl
  rw [Context.lookup, Context.lookup, same]
  cases found : ({ data, schema := resolver } : Context).resolve record name with
  | some value => exact .ok (SameValue.refl _)
  | none => exact .instead ⟨name, mem, rfl, record, here, found⟩

/-- Where nothing is missed a context does not change by being strict. -/
theorem alike_strict :
    Alike (Misses { data, schema := resolver } names) (· ∈ names) { data, schema := resolver }
      { data, schema := resolver, strict := true } where
  field name mem := by
    cases data with
    | many records => exact .error
    | single record =>
      exact (lookup_follows (List.mem_singleton_self record) mem).bind fun _ _ _ _ same =>
        .ok (congrArg Value.ofField same)
  records := List.forall₂_same.mpr fun _ here _ mem => lookup_follows here mem

end AbsentFieldsLemmas

open AbsentFieldsLemmas

/-- A strict run of a formula has the value, or the error, of a run in which absent fields are null, or it
misses a field of the formula that some record does not have. -/
theorem execute_strict_or_missing (formula : Formula) (data : Data) (resolver : Resolver) :
    execute formula { data, schema := resolver, strict := true } = execute formula { data, schema := resolver } ∨
      ∃ name ∈ formula.fields,
        execute formula { data, schema := resolver, strict := true } = .error (.missingField name) ∧
        ∃ record ∈ data.records, ({ data, schema := resolver } : Context).resolve record name = none := by
  have follows := execute_follows formula (@alike_strict data resolver formula.fields)
  generalize execute formula { data, schema := resolver } = lenient at follows ⊢
  generalize execute formula { data, schema := resolver, strict := true } = strict at follows ⊢
  cases follows with
  | ok same => exact .inl (congrArg Except.ok same.symm)
  | error => exact .inl rfl
  | instead misses =>
    obtain ⟨name, mem, rfl, absent⟩ := misses
    exact .inr ⟨name, mem, rfl, absent⟩

/-! ## Nulls -/

/-- Two records that differ at most in fields that hold null in one of them and are absent from the
other. -/
def SameButNulls (record other : Record) : Prop :=
  ∀ name, SameValue (record.get? name) (other.get? name)

theorem sameButNulls_insert_null {record : Record} {name : String} (absent : record.get? name = none) :
    SameButNulls (record.insert name .null) record := by
  intro other
  by_cases same : other = name
  · rw [same, Record.get?_insert_self, absent]
    rfl
  · rw [Record.get?_insert_of_ne record .null same]
    exact SameValue.refl _

namespace AbsentFieldsLemmas

theorem sameReads_of_nulls {data other : Data} {record record' : Record}
    (same : SameButNulls record record') :
    SameReads (fun _ => False) (fun _ => True) { data, schema := .direct, strict := false }
      { data := other, schema := .direct, strict := false } record record' := by
  intro name _
  rw [Context.lookup_of_lenient rfl, Context.lookup_of_lenient rfl]
  exact .ok (same name)

end AbsentFieldsLemmas

/-- Over inputs of one shape whose records differ in nulls only, a token list has the same value or fails for
the same reason, if names are looked up as they are and an absent field is no error. -/
theorem evaluate_eq_of_nulls (ts : List Token) {data other : Data}
    (same : Data.Corresponds SameButNulls data other) :
    evaluate ts { data, schema := .direct, strict := false } =
      evaluate ts { data := other, schema := .direct, strict := false } := by
  have alike : Alike (fun _ => False) (fun _ => True) { data, schema := .direct, strict := false }
      { data := other, schema := .direct, strict := false } := by
    cases same with
    | @single record record' same =>
      have inRecord : SameReads (fun _ => False) (fun _ => True) { data := .single record }
          { data := .single record' } record record' := sameReads_of_nulls same
      exact Alike.forRecord inRecord
    | many same => exact ⟨fun _ _ => .error, same.imp fun _ _ => sameReads_of_nulls⟩
  exact (evaluate_follows (fun _ _ => trivial) _ _ alike).eq_of_never

/-- Nulls that one list of records holds and another leaves out, either way around, do not change how many
amounts there are. -/
theorem amountCount_ignores_nulls :
    evaluate [.function "COUNT", .operator .leftParen, .field "amount", .field "WHERE", .field "dpd",
        .operator .less, .number 9, .operator .rightParen]
        { data := .many [.ofList [("dpd", .number 5), ("amount", .null)], .empty]
          schema := .direct, strict := false } =
      evaluate [.function "COUNT", .operator .leftParen, .field "amount", .field "WHERE", .field "dpd",
        .operator .less, .number 9, .operator .rightParen]
        { data := .many [.ofList [("dpd", .number 5)], .ofList [("dpd", .null)]]
          schema := .direct, strict := false } := by
  have nullAmount : SameButNulls (.ofList [("dpd", .number 5), ("amount", .null)])
      (.ofList [("dpd", .number 5)]) := sameButNulls_insert_null rfl
  have nullDays : SameButNulls (.ofList [("dpd", .null)]) .empty := sameButNulls_insert_null rfl
  exact evaluate_eq_of_nulls _
    (.many (.cons nullAmount (.cons (fun name => (nullDays name).symm) .nil)))

end RecordFormula
