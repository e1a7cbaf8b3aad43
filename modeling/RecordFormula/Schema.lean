import RecordFormula.Record

/-! # Schemas

A schema declares the field names that records carry and pairs names that stand in for each other. A
pair works in both directions and does not chain: only the names paired with a name itself replace
it. Every schema starts with four pairs.
-/

namespace RecordFormula

/-- Why a field cannot be declared. -/
inductive SchemaError where
  | invalidFieldName (name : String)
  | duplicateField (name : String)
deriving DecidableEq, Repr

def SchemaError.message : SchemaError → String
  | .invalidFieldName name => s!"Invalid field name: '{name}'"
  | .duplicateField name => s!"Field already declared: '{name}'"

/-- A letter or `_`, then letters, digits and `_`, all of ASCII. -/
def isFieldName (name : String) : Bool :=
  match name.toList with
  | [] => false
  | c :: cs => (c.isAlpha || c == '_') && cs.all fun c => c.isAlphanum || c == '_'

/-- Declared names and alias pairs, each in the order of registration. -/
structure Schema where
  fields : List String
  aliases : List (String × String)
deriving DecidableEq, Repr

namespace Schema

/-- The pairs that every schema has. -/
def builtinAliases : List (String × String) := [
  ("amount", "outstanding_balance"),
  ("probability_of_default", "pd"),
  ("loss_given_default", "lgd"),
  ("exposure_at_default", "ead")]

/-- The schema that declares nothing. -/
def empty : Schema := { fields := [], aliases := builtinAliases }

instance : Inhabited Schema := ⟨empty⟩

/-- Declares a field. -/
def addField (schema : Schema) (name : String) : Except SchemaError Schema :=
  if !isFieldName name then .error (.invalidFieldName name)
  else if schema.fields.contains name then .error (.duplicateField name)
  else .ok { schema with fields := schema.fields ++ [name] }

/-- The schema that declares the given names. -/
def ofFields (names : List String) : Except SchemaError Schema := names.foldlM addField empty

/-- Pairs two names. -/
def addAlias (schema : Schema) (a b : String) : Schema :=
  { schema with aliases := schema.aliases ++ [(a, b)] }

/-- The names that one pair offers for a name: a name paired with itself is offered twice. -/
def offered (name : String) (pair : String × String) : List String :=
  (if pair.1 = name then [pair.2] else []) ++ (if pair.2 = name then [pair.1] else [])

/-- The names that stand in for a name, in the order of registration. -/
def aliasesOf (schema : Schema) (name : String) : List String :=
  schema.aliases.flatMap (offered name)

/-- Whether a name or one that stands in for it is declared. -/
def contains (schema : Schema) (name : String) : Bool :=
  schema.fields.contains name || (schema.aliasesOf name).any schema.fields.contains

/-- The value of a name in a record, or of the first name there that stands in for it. -/
def lookup (schema : Schema) (record : Record) (name : String) : Option FieldValue :=
  record.get? name <|> (schema.aliasesOf name).findSome? record.get?

/-- The number of declared fields. -/
def size (schema : Schema) : Nat := schema.fields.length

def isEmpty (schema : Schema) : Bool := schema.fields.isEmpty

/-- The declared names in order. -/
def sortedFields (schema : Schema) : List String := Text.sort schema.fields

end Schema

end RecordFormula
