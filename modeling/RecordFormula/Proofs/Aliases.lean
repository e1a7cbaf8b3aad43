import Mathlib.Data.List.Forall2
import RecordFormula.Proofs.Renaming

/-!
# Aliases

Each built-in pair of names stands for one field. A schema that declares fields has these pairs and no others.
A record that holds at most one name of each pair therefore reads the same under both, and the names of a pair
can be put for each other in a token list, in conditions too.

Results:
1. `lookup_firstName`: a name reads what the first name of its pair reads.
2. `evaluate_of_interchanged`: lists with the names of pairs interchanged here and there are worth the same.
3. `evaluate_otherNames`: so is a list with all of them interchanged.
-/

namespace RecordFormula

namespace Schema

/-- The other name of a built-in pair. Any other name stays what it is. -/
def otherName (name : String) : String :=
  match builtinAliases.find? fun pair => pair.1 = name ∨ pair.2 = name with
  | some pair => if pair.1 = name then pair.2 else pair.1
  | none => name

/-- The first name of a built-in pair. Any other name stays what it is. -/
def firstName (name : String) : String :=
  match builtinAliases.find? fun pair => pair.2 = name with
  | some pair => pair.1
  | none => name

end Schema

namespace AliasesLemmas

open Schema

theorem firstName_cases (name : String) :
    (∃ pair ∈ builtinAliases, name = pair.2 ∧ firstName name = pair.1) ∨ firstName name = name := by
  rw [firstName]
  cases found : builtinAliases.find? fun pair => pair.2 = name with
  | none => exact .inr rfl
  | some pair =>
    have isSecond := List.find?_some found
    rw [decide_eq_true_eq] at isSecond
    exact .inl ⟨pair, List.mem_of_find?_eq_some found, isSecond.symm, rfl⟩

theorem firstName_otherName (name : String) : firstName (otherName name) = firstName name := by
  rw [otherName]
  cases found : builtinAliases.find? fun pair => pair.1 = name ∨ pair.2 = name with
  | none => rfl
  | some pair =>
    have both : ∀ pair ∈ builtinAliases, firstName pair.1 = pair.1 ∧ firstName pair.2 = pair.1 := by
      decide
    obtain ⟨first, second⟩ := both pair (List.mem_of_find?_eq_some found)
    have isName := List.find?_some found
    dsimp only
    split
    · rename_i isFirst
      rw [second, ← isFirst, first]
    · rename_i notFirst
      rw [decide_eq_true_eq] at isName
      rw [first, ← isName.resolve_left notFirst, second]

theorem keepsWords_firstName : KeepsWords firstName := by
  have words : ∀ pair ∈ builtinAliases,
      (Text.asciiUpper pair.1 == whereWord) = (Text.asciiUpper pair.2 == whereWord) ∧
        (Text.asciiUpper pair.1 == andWord) = (Text.asciiUpper pair.2 == andWord) ∧
        Catalog.standard.find? (Text.asciiUpper pair.1) =
          Catalog.standard.find? (Text.asciiUpper pair.2) := by
    decide
  constructor <;> intro name <;> rcases firstName_cases name with ⟨pair, mem, rfl, isFirst⟩ | same
  · rw [isFirst, (words pair mem).1]
  · rw [same]
  · rw [isFirst, (words pair mem).2.1]
  · rw [same]
  · rw [isFirst, (words pair mem).2.2]
  · rw [same]

theorem aliases_of_addField {schema added : Schema} {name : String}
    (declared : schema.addField name = .ok added) : added.aliases = schema.aliases := by
  rw [addField] at declared
  split at declared
  · exact absurd declared (by simp)
  · split at declared
    · exact absurd declared (by simp)
    · rw [← Except.ok.inj declared]

theorem aliases_of_addFields {names : List String} {schema declared : Schema}
    (added : names.foldlM addField schema = .ok declared) : declared.aliases = schema.aliases := by
  induction names generalizing schema with
  | nil => rw [Except.ok.inj added]
  | cons name names ih =>
    rw [List.foldlM_cons] at added
    obtain ⟨next, first, added⟩ := exists_of_bind_eq_ok added
    rw [ih added, aliases_of_addField first]

end AliasesLemmas

open AliasesLemmas

/-- A record that holds at most one name of each built-in pair. -/
def OneOfEachPair (record : Record) : Prop :=
  ∀ pair ∈ Schema.builtinAliases, record.get? pair.1 = none ∨ record.get? pair.2 = none

/-- In a schema with the built-in pairs only, a name reads what the first name of its pair reads. -/
theorem lookup_firstName {schema : Schema} {record : Record}
    (builtin : schema.aliases = Schema.builtinAliases) (apart : OneOfEachPair record) (name : String) :
    schema.lookup record (Schema.firstName name) = schema.lookup record name := by
  rcases firstName_cases name with ⟨pair, mem, rfl, isFirst⟩ | same
  · have offered : ∀ pair ∈ Schema.builtinAliases,
        Schema.empty.aliasesOf pair.1 = [pair.2] ∧ Schema.empty.aliasesOf pair.2 = [pair.1] := by
      decide
    obtain ⟨second, first⟩ := offered pair mem
    have aliases (name : String) : schema.aliasesOf name = Schema.empty.aliasesOf name := by
      rw [Schema.aliasesOf, Schema.aliasesOf, builtin]
      rfl
    rw [isFirst, Schema.lookup, Schema.lookup, aliases, aliases, second, first, List.findSome?_singleton,
      List.findSome?_singleton]
    rcases apart pair mem with absent | absent
    · rw [absent]
      cases record.get? pair.2 <;> rfl
    · rw [absent]
      cases record.get? pair.1 <;> rfl
  · rw [same]

/-- A token that is left, or a field that gets the other name of its pair. -/
inductive Token.Interchanges : Token → Token → Prop
  | same (t : Token) : Interchanges t t
  | other (name : String) : Interchanges (.field name) (.field (Schema.otherName name))

section Evaluation

variable {names : List String} {schema : Schema} {data : Data} {strict : Bool}

namespace AliasesLemmas

/-- With the first names of the pairs for all names, a list is worth the same. -/
theorem evaluate_firstNames (declared : Schema.ofFields names = .ok schema)
    (apart : ∀ record ∈ data.records, OneOfEachPair record) (ts : List Token) :
    EndsAlike EvalError.kind Eq (evaluate ts { data, schema := some schema, strict })
      (evaluate (ts.map (.rename Schema.firstName)) { data, schema := some schema, strict }) := by
  refine evaluate_renamed keepsWords_firstName ?_ ts
  intro record mem name _
  have resolved : ({ data, schema := some schema, strict } : Context).resolve record (Schema.firstName name) =
      ({ data, schema := some schema, strict } : Context).resolve record name :=
    lookup_firstName (aliases_of_addFields declared) (apart record mem) name
  rw [Context.lookup, Context.lookup, resolved]
  split
  · exact .refl _
  · split
    · exact .error rfl
    · exact .refl _

theorem firstNames_of_interchanged {ts ts' : List Token}
    (interchanged : List.Forall₂ Token.Interchanges ts ts') :
    ts.map (Token.rename Schema.firstName) = ts'.map (.rename Schema.firstName) := by
  induction interchanged with
  | nil => rfl
  | cons head _ ih =>
    rw [List.map_cons, List.map_cons, ih]
    cases head with
    | same => rfl
    | other name => rw [Token.rename, Token.rename, firstName_otherName]

end AliasesLemmas

/-- Over records with at most one name of each pair, the names of the pairs can be interchanged wherever they
stand in a list. -/
theorem evaluate_of_interchanged {ts ts' : List Token} (declared : Schema.ofFields names = .ok schema)
    (apart : ∀ record ∈ data.records, OneOfEachPair record)
    (interchanged : List.Forall₂ Token.Interchanges ts ts') :
    EndsAlike EvalError.kind Eq (evaluate ts { data, schema := some schema, strict })
      (evaluate ts' { data, schema := some schema, strict }) := by
  have canonical := @evaluate_firstNames _ _ _ strict declared apart
  refine EndsAlike.trans Eq.trans (canonical ts) ?_
  rw [firstNames_of_interchanged interchanged]
  exact (canonical ts').symm

/-- Over records with at most one name of each pair, a list is worth the same, or fails with an error of the
same kind, when the other name of its pair stands for every name. -/
theorem evaluate_otherNames (declared : Schema.ofFields names = .ok schema)
    (apart : ∀ record ∈ data.records, OneOfEachPair record) (ts : List Token) :
    EndsAlike EvalError.kind Eq (evaluate ts { data, schema := some schema, strict })
      (evaluate (ts.map (.rename Schema.otherName)) { data, schema := some schema, strict }) := by
  refine evaluate_of_interchanged declared apart (List.forall₂_map_right_iff.mpr ?_)
  refine List.forall₂_same.mpr fun t _ => ?_
  cases t with
  | field name => exact .other name
  | _ => exact .same _

/-- The sum of one name under a condition on another. -/
def exposedTotal (amount exposure : String) : List Token := [
  .function "SUM", .operator .leftParen, .field amount, .field "WHERE", .field exposure, .operator .greater,
  .number 0, .operator .rightParen]

/-- Two records with one name of each of two pairs. -/
def exposures : Data := .many [
  .ofList [("outstanding_balance", .number 2), ("ead", .number 1)],
  .ofList [("amount", .number 3), ("exposure_at_default", .null)]]

/-- The total of the exposures is read under the other names too. -/
theorem exposedTotal_under_other_names :
    let schema : Schema := { fields := ["amount"], aliases := Schema.builtinAliases }
    let ctx : Context := { data := exposures, schema := some schema, strict := true }
    Schema.ofFields ["amount"] = .ok schema ∧ (∀ record ∈ exposures.records, OneOfEachPair record) ∧
      (exposedTotal "amount" "ead").map (Token.rename Schema.otherName) =
        exposedTotal "outstanding_balance" "exposure_at_default" ∧
      EndsAlike EvalError.kind Eq (evaluate (exposedTotal "amount" "ead") ctx)
        (evaluate (exposedTotal "outstanding_balance" "exposure_at_default") ctx) := by
  have declared : Schema.ofFields ["amount"] =
      .ok { fields := ["amount"], aliases := Schema.builtinAliases } := by decide
  have apart : ∀ record ∈ exposures.records, OneOfEachPair record := by
    unfold OneOfEachPair
    decide
  have others : (exposedTotal "amount" "ead").map (Token.rename Schema.otherName) =
      exposedTotal "outstanding_balance" "exposure_at_default" := by rfl
  have alike := @evaluate_otherNames _ _ _ true declared apart (exposedTotal "amount" "ead")
  rw [others] at alike
  exact ⟨declared, apart, others, alike⟩

end Evaluation

end RecordFormula
