import Mathlib.Data.List.Nodup
import RecordFormula.Schema

/-!
# Registrations

A schema grows by fields and pairs of names, in any order, and nothing is ever taken out of it. New names are
behind the old ones in both lists, so a name that is known stays known, and a name that reads some field of a
record does not come to read another one.

Results:
1. `Schema.registers`: what a registration does.
2. `Schema.Consistent.registerAll`: every declared name is a valid one, and is declared once.
3. `Schema.size_registerAll`: as many fields are there as were declared with success.
4. `Schema.lookup_of_extends` and `Schema.contains_of_extends`: what a larger schema still answers.
5. `Schema.registrations_consistent`: all of it, for every run of registrations.
-/

namespace RecordFormula

/-- What can be registered in a schema. -/
inductive Registration where
  | field (name : String)
  | pair (a b : String)
deriving DecidableEq, Repr

namespace Schema

/-- Whether a registration declares a field. One that is refused does not. -/
def declares (schema : Schema) : Registration → Bool
  | .field name => (schema.addField name).isOk
  | .pair _ _ => false

/-- The schema after a registration. A field that is refused leaves it as it is. -/
def register (schema : Schema) : Registration → Schema
  | .field name =>
    match schema.addField name with
    | .ok added => added
    | .error _ => schema
  | .pair a b => schema.addAlias a b

/-- The schema after registrations, one after the other. -/
def registerAll (schema : Schema) (registrations : List Registration) : Schema :=
  registrations.foldl register schema

/-- How many of the registrations declare a field, each in the schema that is there by then. -/
def declarations (schema : Schema) : List Registration → Nat
  | [] => 0
  | first :: rest => (schema.declares first).toNat + (schema.register first).declarations rest

/-! ## Steps -/

/-- What a registration can do to a schema, and whether it declares a field. -/
inductive Registers (schema : Schema) : Registration → Bool → Schema → Prop
  | declared {name : String} : isFieldName name = true → name ∉ schema.fields →
      Registers schema (.field name) true { schema with fields := schema.fields ++ [name] }
  | refused {name : String} {reason : SchemaError} : schema.addField name = .error reason →
      Registers schema (.field name) false schema
  | paired (a b : String) : Registers schema (.pair a b) false (schema.addAlias a b)

variable {schema later last : Schema} {name : String} {record : Record}

theorem addField_eq_ok_iff :
    schema.addField name = .ok later ↔
      isFieldName name = true ∧ name ∉ schema.fields ∧
        later = { schema with fields := schema.fields ++ [name] } := by
  rw [addField]
  cases valid : isFieldName name with
  | false => simp
  | true => by_cases there : name ∈ schema.fields <;> simp [there, eq_comm]

theorem addField_eq_error_iff {reason : SchemaError} :
    schema.addField name = .error reason ↔
      isFieldName name = false ∧ reason = .invalidFieldName name ∨
        isFieldName name = true ∧ name ∈ schema.fields ∧ reason = .duplicateField name := by
  rw [addField]
  cases valid : isFieldName name with
  | false => simp [eq_comm]
  | true => by_cases there : name ∈ schema.fields <;> simp [there, eq_comm]

/-- The rules are what a registration does. -/
theorem registers (schema : Schema) (registration : Registration) :
    schema.Registers registration (schema.declares registration) (schema.register registration) := by
  cases registration with
  | pair a b => exact .paired a b
  | field name =>
    rw [declares, register]
    cases outcome : schema.addField name with
    | error reason => exact .refused outcome
    | ok added =>
      obtain ⟨valid, new, rfl⟩ := addField_eq_ok_iff.mp outcome
      exact .declared valid new

theorem registerAll_of_refused {reason : SchemaError} (refused : schema.addField name = .error reason)
    (more : List Registration) : schema.registerAll (.field name :: more) = schema.registerAll more := by
  rw [registerAll, List.foldl_cons, register, refused]
  rfl

/-! ## Declared fields -/

/-- What holds of the declared fields of a schema. -/
structure Consistent (schema : Schema) : Prop where
  areNames : ∀ name ∈ schema.fields, isFieldName name = true
  distinct : schema.fields.Nodup

theorem consistent_empty : empty.Consistent := ⟨by simp [empty], List.nodup_nil⟩

theorem Consistent.of_registers {registration : Registration} {declares : Bool}
    (consistent : schema.Consistent) (step : schema.Registers registration declares later) :
    later.Consistent := by
  obtain ⟨areNames, distinct⟩ := consistent
  cases step with
  | declared valid new =>
    refine ⟨List.forall_mem_append.mpr ⟨areNames, by simpa using valid⟩, ?_⟩
    rw [← List.concat_eq_append]
    exact distinct.concat new
  | refused => exact ⟨areNames, distinct⟩
  | paired => exact ⟨areNames, distinct⟩

/-- However it has grown, a schema declares valid names, each of them once. -/
theorem Consistent.registerAll (consistent : schema.Consistent) (registrations : List Registration) :
    (schema.registerAll registrations).Consistent := by
  induction registrations generalizing schema with
  | nil => exact consistent
  | cons first rest ih => exact ih (consistent.of_registers (schema.registers first))

theorem size_of_registers {registration : Registration} {declares : Bool}
    (step : schema.Registers registration declares later) : later.size = schema.size + declares.toNat := by
  cases step with
  | declared => exact List.length_append
  | refused => rfl
  | paired => rfl

/-- A schema has grown by the fields that were not refused. -/
theorem size_registerAll (schema : Schema) (registrations : List Registration) :
    (schema.registerAll registrations).size = schema.size + schema.declarations registrations := by
  induction registrations generalizing schema with
  | nil => rfl
  | cons first rest ih =>
    calc ((schema.register first).registerAll rest).size
      _ = (schema.register first).size + (schema.register first).declarations rest := ih _
      _ = schema.size + (schema.declares first).toNat + (schema.register first).declarations rest := by
        rw [size_of_registers (schema.registers first)]
      _ = schema.size + schema.declarations (first :: rest) := Nat.add_assoc ..

/-! ## Pairs -/

/-- A pair offers one name for another once for each of its sides that has the other name. -/
theorem count_offered (a b x y : String) :
    (offered a (x, y)).count b = (if x = a ∧ y = b then 1 else 0) + if y = a ∧ x = b then 1 else 0 := by
  have side (own other : String) :
      (if own = a then [other] else []).count b = if own = a ∧ other = b then 1 else 0 := by
    by_cases isOwn : own = a <;> simp [isOwn, List.count_singleton]
  rw [offered, List.count_append, side, side]

/-- A name stands in for another as often as the other does for it. -/
theorem count_aliasesOf (schema : Schema) (a b : String) :
    (schema.aliasesOf a).count b = (schema.aliasesOf b).count a := by
  rw [aliasesOf, aliasesOf, List.count_flatMap, List.count_flatMap]
  refine congrArg (fun count => (schema.aliases.map count).sum) (funext fun (x, y) => ?_)
  show (offered a (x, y)).count b = (offered b (x, y)).count a
  rw [count_offered, count_offered, Nat.add_comm]
  simp only [and_comm]

/-! ## Growth -/

/-- A schema with more fields and pairs behind those of another. -/
structure Extends (schema later : Schema) : Prop where
  fields : schema.fields <+: later.fields
  aliases : schema.aliases <+: later.aliases

theorem Extends.refl (schema : Schema) : schema.Extends schema := ⟨List.prefix_rfl, List.prefix_rfl⟩

theorem Extends.trans (first : schema.Extends later) (second : later.Extends last) : schema.Extends last :=
  ⟨first.fields.trans second.fields, first.aliases.trans second.aliases⟩

theorem extends_of_registers {registration : Registration} {declares : Bool}
    (step : schema.Registers registration declares later) : schema.Extends later := by
  cases step with
  | declared => exact ⟨List.prefix_append _ _, List.prefix_rfl⟩
  | refused => exact .refl schema
  | paired => exact ⟨List.prefix_rfl, List.prefix_append _ _⟩

theorem extends_registerAll (schema : Schema) (registrations : List Registration) :
    schema.Extends (schema.registerAll registrations) := by
  induction registrations generalizing schema with
  | nil => exact .refl schema
  | cons first rest ih => exact (extends_of_registers (schema.registers first)).trans (ih _)

section Extends

variable (grown : schema.Extends later)
include grown

/-- The names that stand in for a name stay, in front of further ones. -/
theorem aliasesOf_of_extends (name : String) : schema.aliasesOf name <+: later.aliasesOf name := by
  obtain ⟨behind, whole⟩ := grown.aliases
  rw [aliasesOf, aliasesOf, ← whole, List.flatMap_append]
  exact List.prefix_append _ _

/-- A name reads what it has read, since the name that is found first comes first as before. -/
theorem lookup_of_extends {value : FieldValue} (found : schema.lookup record name = some value) :
    later.lookup record name = some value := by
  obtain ⟨behind, whole⟩ := aliasesOf_of_extends grown name
  rw [lookup, Option.orElse_eq_orElse, Option.orElse_eq_or] at found ⊢
  rw [← whole, List.findSome?_append, ← Option.or_assoc, found, Option.some_or]

/-- A name that is known stays known. -/
theorem contains_of_extends (known : schema.contains name = true) : later.contains name = true := by
  have declared {name : String} (mem : schema.fields.contains name = true) :
      later.fields.contains name = true :=
    List.contains_iff_mem.mpr (grown.fields.subset (List.contains_iff_mem.mp mem))
  rw [contains, Bool.or_eq_true, List.any_eq_true] at known ⊢
  rcases known with own | ⟨standIn, offered, known⟩
  · exact .inl (declared own)
  · exact .inr ⟨standIn, (aliasesOf_of_extends grown name).subset offered, declared known⟩

end Extends

/-- After any run of registrations a schema declares valid names, each once, and as many as were declared with
success. Names stand in for each other as often one way as the other. A field is refused only for its name or for
being there already, and that leaves the schema as it is, so it makes no difference to anything later. What a name
reads in a record it goes on to read, and a name that is known stays known, whatever is registered behind. -/
theorem registrations_consistent (registrations more : List Registration) :
    let schema := empty.registerAll registrations
    (∀ name ∈ schema.fields, isFieldName name = true) ∧ schema.fields.Nodup ∧
      schema.size = empty.declarations registrations ∧
      (∀ a b, (schema.aliasesOf a).count b = (schema.aliasesOf b).count a) ∧
      (∀ name reason, schema.addField name = .error reason →
        (reason = .invalidFieldName name ∧ isFieldName name = false ∨
          reason = .duplicateField name ∧ name ∈ schema.fields) ∧
        schema.registerAll (.field name :: more) = schema.registerAll more) ∧
      (∀ record name value, schema.lookup record name = some value →
        (schema.registerAll more).lookup record name = some value) ∧
      ∀ name, schema.contains name = true → (schema.registerAll more).contains name = true := by
  intro schema
  have consistent : schema.Consistent := consistent_empty.registerAll registrations
  have grown : schema.Extends (schema.registerAll more) := extends_registerAll schema more
  refine ⟨consistent.areNames, consistent.distinct, ?_, count_aliasesOf schema, ?_, ?_, ?_⟩
  · rw [size_registerAll]
    exact Nat.zero_add _
  · intro name reason refused
    refine ⟨?_, registerAll_of_refused refused more⟩
    rcases addField_eq_error_iff.mp refused with ⟨invalid, reason⟩ | ⟨-, there, reason⟩
    · exact .inl ⟨reason, invalid⟩
    · exact .inr ⟨reason, there⟩
  · exact fun record name value found => lookup_of_extends grown found
  · exact fun name known => contains_of_extends grown known

/-- A run that declares a field twice, pairs it with itself, and pairs a name with one that has a stand-in. -/
def balanceRun : List Registration :=
  [.field "outstanding_balance", .pair "outstanding_balance" "outstanding_balance", .field "outstanding_balance",
    .pair "exposure" "amount"]

/-- Only the first of the two fields was declared. Registered once more it changes nothing, and neither does one
with an invalid name. The amount is read under the first name that stands in for it, though the record holds the
second one too, and with the exposure declared and another stand-in it still is. -/
theorem balanceRun_finds_balance :
    let schema := empty.registerAll balanceRun
    let more : List Registration := [.field "exposure", .pair "limit" "amount"]
    let record := Record.ofList [("exposure", .number 1), ("limit", .number 3), ("outstanding_balance", .number 2)]
    schema.size = 1 ∧
      schema.addField "outstanding_balance" = .error (.duplicateField "outstanding_balance") ∧
      schema.registerAll (.field "outstanding_balance" :: more) = schema.registerAll more ∧
      schema.addField "1st" = .error (.invalidFieldName "1st") ∧
      schema.registerAll (.field "1st" :: more) = schema.registerAll more ∧
      schema.lookup record "amount" = some (.number 2) ∧
      (schema.registerAll more).lookup record "amount" = some (.number 2) ∧
      schema.contains "amount" = true ∧ (schema.registerAll more).contains "amount" = true := by
  intro schema more record
  obtain ⟨-, -, size, -, refused, found, known⟩ := registrations_consistent balanceRun more
  have duplicate : schema.addField "outstanding_balance" = .error (.duplicateField "outstanding_balance") := by
    decide
  have invalid : schema.addField "1st" = .error (.invalidFieldName "1st") := by decide
  have read : schema.lookup record "amount" = some (.number 2) := by with_unfolding_all rfl
  have contained : schema.contains "amount" = true := by decide
  exact ⟨size, duplicate, (refused _ _ duplicate).2, invalid, (refused _ _ invalid).2, read,
    found _ _ _ read, contained, known _ contained⟩

end Schema

end RecordFormula
