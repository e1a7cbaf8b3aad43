import RecordFormula.FieldValue
import RecordFormula.Text.Order

/-! # Records

A record maps field names to values; a name is there at most once, and a name that is there may still
hold null. A formula runs over one record or over a list of records. `get?_insert_self` and
`get?_insert_of_ne` say what a record is after a field is set.
-/

namespace RecordFormula

/-- One row of data. -/
structure Record where
  fields : List (String × FieldValue)
  distinct : (fields.map Prod.fst).Nodup

namespace Record

def empty : Record := ⟨[], List.nodup_nil⟩

instance : Inhabited Record := ⟨empty⟩

/-- The value under a name. -/
def get? (record : Record) (name : String) : Option FieldValue := record.fields.lookup name

/-- Whether a name is there. -/
def contains (record : Record) (name : String) : Bool := (record.get? name).isSome

/-- The number of fields. -/
def size (record : Record) : Nat := record.fields.length

def isEmpty (record : Record) : Bool := record.fields.isEmpty

/-- Sets a field, in place of what it held. -/
def insert (record : Record) (name : String) (value : FieldValue) : Record where
  fields := (name, value) :: record.fields.filter fun field => field.1 != name
  distinct := by
    rw [List.map_cons, List.nodup_cons]
    refine ⟨by simp, ?_⟩
    exact record.distinct.sublist (List.Sublist.map _ List.filter_sublist)

/-- The record of a list of fields. The last value of a repeated name stays. -/
def ofList (fields : List (String × FieldValue)) : Record :=
  fields.foldl (fun record field => record.insert field.1 field.2) empty

/-- The fields in the order of their names. -/
def sorted (record : Record) : List (String × FieldValue) := Text.sortOn Prod.fst record.fields

/-- Equality of numbers as numbers: both zeros are equal, and a NaN equals nothing. -/
instance : BEq Record where
  beq a b := a.size == b.size && a.fields.all fun field => b.get? field.1 == some field.2

@[simp] theorem get?_empty (name : String) : empty.get? name = none := rfl

theorem get?_insert_self (record : Record) (name : String) (value : FieldValue) :
    (record.insert name value).get? name = some value := by
  simp [get?, insert]

theorem get?_insert_of_ne (record : Record) {name other : String} (value : FieldValue)
    (distinct : other ≠ name) : (record.insert name value).get? other = record.get? other := by
  have unequal : (other == name) = false := by simpa using distinct
  simp only [get?, insert, List.lookup_cons, unequal]
  induction record.fields with
  | nil => rfl
  | cons field fields ih =>
    obtain ⟨key, held⟩ := field
    by_cases same : key = name
    · simp [same, ih, List.lookup_cons, unequal]
    · simp [same, ih, List.lookup_cons]

end Record

/-- What a formula runs over. Names are read from a single record; a list of records only means
something to the functions that reduce it. -/
inductive Data where
  | single (record : Record)
  | many (records : List Record)

namespace Data

/-- The records an aggregate runs over: a single record is a list of one. -/
def records : Data → List Record
  | .single record => [record]
  | .many records => records

/-- The record that names are read from. -/
def record? : Data → Option Record
  | .single record => some record
  | .many _ => none

/-- The number of records. -/
def size (data : Data) : Nat := data.records.length

def isEmpty (data : Data) : Bool := data.records.isEmpty

end Data

end RecordFormula
