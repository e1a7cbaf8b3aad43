import RecordFormula.Record

/-! # Records written as JSON

A record is written as a JSON object whose members are null, a number or a string. Anything else is
refused: other values, members without a comma between them, control characters and lone surrogates in
strings, numbers beyond the largest double, and text behind the object. Of members with the same name
the last one stays.
-/

namespace RecordFormula.Record.Json

/-- The four characters that may stand between the parts of a JSON text. -/
def isSpace (c : Char) : Bool := c == ' ' || c == '\n' || c == '\t' || c == '\r'

def skipSpace (cs : List Char) : List Char := cs.dropWhile isSpace

/-- The value of a hexadecimal digit. -/
def hexDigit? (c : Char) : Option Nat :=
  if c.isDigit then some (c.toNat - '0'.toNat)
  else if 'a' ≤ c ∧ c ≤ 'f' then some (c.toNat - 'a'.toNat + 10)
  else if 'A' ≤ c ∧ c ≤ 'F' then some (c.toNat - 'A'.toNat + 10)
  else none

/-- The value of four hexadecimal digits. -/
def hex? (a b c d : Char) : Option Nat := do
  pure (((← hexDigit? a) * 16 + (← hexDigit? b)) * 256 + (← hexDigit? c) * 16 + (← hexDigit? d))

/-- The character of a code unit, unless it is half of a pair. -/
def ofUnit? (n : Nat) : Option Char := if 0xD800 ≤ n ∧ n < 0xE000 then none else some (Char.ofNat n)

/-- The character of a pair of code units. -/
def ofPair? (high low : Nat) : Option Char :=
  if 0xD800 ≤ high ∧ high < 0xDC00 ∧ 0xDC00 ≤ low ∧ low < 0xE000 then
    some (Char.ofNat (0x10000 + (high - 0xD800) * 0x400 + (low - 0xDC00)))
  else none

/-- The character of a backslash and a letter. -/
def escape? : Char → Option Char
  | '"' => some '"'
  | '\\' => some '\\'
  | '/' => some '/'
  | 'b' => some '\u0008'
  | 'f' => some '\u000C'
  | 'n' => some '\n'
  | 'r' => some '\r'
  | 't' => some '\t'
  | _ => none

/-- One character of a string, however it is written, and what is behind it. -/
def readChar : List Char → Option (Char × List Char)
  | '\\' :: 'u' :: a :: b :: c :: d :: cs =>
    match hex? a b c d with
    | none => none
    | some n =>
      match ofUnit? n, cs with
      | some c, cs => some (c, cs)
      | none, '\\' :: 'u' :: e :: f :: g :: h :: cs =>
        (hex? e f g h).bind fun low => (ofPair? n low).map (·, cs)
      | none, _ => none
  | '\\' :: c :: cs => (escape? c).map (·, cs)
  | c :: cs => if c.toNat < 0x20 ∨ c = '\\' then none else some (c, cs)
  | [] => none

theorem length_of_readChar {cs rest : List Char} {c : Char}
    (found : readChar cs = some (c, rest)) : rest.length < cs.length := by
  unfold readChar at found
  split at found
  · split at found
    · simp at found
    · split at found
      · simp only [Option.some.injEq, Prod.mk.injEq] at found
        simp only [← found.2, List.length_cons]
        omega
      · simp only [Option.bind_eq_some_iff, Option.map_eq_some_iff, Prod.mk.injEq] at found
        obtain ⟨_, _, _, _, _, rfl⟩ := found
        simp only [List.length_cons]
        omega
      · simp at found
  · simp only [Option.map_eq_some_iff, Prod.mk.injEq] at found
    obtain ⟨_, _, _, rfl⟩ := found
    simp only [List.length_cons]
    omega
  · split at found <;> simp only [reduceCtorEq, Option.some.injEq, Prod.mk.injEq] at found
    simp only [← found.2, List.length_cons]
    omega
  · simp at found

/-- The characters of a string up to its closing quote, and what is behind. -/
def readString (cs : List Char) : Option (List Char × List Char) :=
  if cs.head? = some '"' then some ([], cs.tail)
  else
    match _read : readChar cs with
    | none => none
    | some (c, rest) => (readString rest).map fun result => (c :: result.1, result.2)
termination_by cs.length
decreasing_by exact length_of_readChar _read

theorem length_of_readString {cs rest letters : List Char}
    (found : readString cs = some (letters, rest)) : rest.length < cs.length := by
  fun_induction readString cs generalizing letters with
  | case1 cs quoted =>
    cases cs <;> simp at quoted found
    simp [← found.2]
  | case2 => simp at found
  | case3 cs _ c behind read ih =>
    have shorter := length_of_readChar read
    simp only [Option.map_eq_some_iff, Prod.mk.injEq] at found
    obtain ⟨_, inner, _, rfl⟩ := found
    have := ih inner
    omega

/-- Whether a character can stand in a number. -/
def isNumberChar (c : Char) : Bool :=
  c.isDigit || c == '-' || c == '+' || c == '.' || c == 'e' || c == 'E'

/-- The value of a JSON number: a numeral whose whole part is written without a plus sign or needless
zeros, and with a digit behind its point. -/
def number? (cs : List Char) : Option Float :=
  let unsigned := if cs.head? = some '-' then cs.tail else cs
  let whole := unsigned.takeWhile Char.isDigit
  let rest := unsigned.dropWhile Char.isDigit
  let wholeOk := !whole.isEmpty && (whole.length == 1 || whole.head? != some '0')
  let pointOk := rest.head? != some '.' || rest.tail.head?.any Char.isDigit
  if wholeOk && pointOk then (Number.readNumeral cs).filter Float.isFinite else none

/-- A member's value and what is behind it. -/
def readValue : List Char → Option (FieldValue × List Char)
  | '"' :: cs => (readString cs).map fun result => (.text (String.ofList result.1), result.2)
  | 'n' :: 'u' :: 'l' :: 'l' :: cs => some (.null, cs)
  | cs => (number? (cs.takeWhile isNumberChar)).map fun x =>
    (.number x, cs.dropWhile isNumberChar)

theorem length_of_readValue {cs rest : List Char} {value : FieldValue}
    (found : readValue cs = some (value, rest)) : rest.length ≤ cs.length := by
  unfold readValue at found
  split at found
  · simp only [Option.map_eq_some_iff, Prod.mk.injEq, Prod.exists] at found
    obtain ⟨_, _, read, _, rfl⟩ := found
    have := length_of_readString read
    simp only [List.length_cons]
    omega
  · simp only [Option.some.injEq, Prod.mk.injEq] at found
    simp only [← found.2, List.length_cons]
    omega
  · simp only [Option.map_eq_some_iff, Prod.mk.injEq] at found
    obtain ⟨_, _, _, rfl⟩ := found
    exact (List.dropWhile_sublist _).length_le

theorem length_skipSpace_le (cs : List Char) : (skipSpace cs).length ≤ cs.length :=
  (List.dropWhile_sublist _).length_le

/-- A name, a colon and a value with the space around them, and what is behind. -/
def readMember (cs : List Char) : Option ((String × FieldValue) × List Char) :=
  match skipSpace cs with
  | '"' :: cs =>
    match readString cs with
    | none => none
    | some (name, cs) =>
      match skipSpace cs with
      | ':' :: cs =>
        (readValue (skipSpace cs)).map fun result =>
          ((String.ofList name, result.1), skipSpace result.2)
      | _ => none
  | _ => none

theorem length_of_readMember {cs rest : List Char} {field : String × FieldValue}
    (found : readMember cs = some (field, rest)) : rest.length < cs.length := by
  unfold readMember at found
  split at found
  · rename_i behind skipped
    have outer : (skipSpace cs).length ≤ cs.length := length_skipSpace_le _
    rw [skipped, List.length_cons] at outer
    split at found
    · simp at found
    · rename_i named
      have inner := length_of_readString named
      split at found
      · rename_i name afterName _ afterColon colon
        have middle : (skipSpace afterName).length ≤ afterName.length := length_skipSpace_le _
        rw [colon, List.length_cons] at middle
        simp only [Option.map_eq_some_iff, Prod.mk.injEq, Prod.exists] at found
        obtain ⟨_, afterValue, read, _, rfl⟩ := found
        have valued := length_of_readValue read
        have before : (skipSpace afterColon).length ≤ afterColon.length := length_skipSpace_le _
        have after : (skipSpace afterValue).length ≤ afterValue.length := length_skipSpace_le _
        omega
      · simp at found
  · simp at found

/-- The members of an object up to its closing brace, and what is behind. -/
def readMembers (cs : List Char) : Option (List (String × FieldValue) × List Char) :=
  match _read : readMember cs with
  | some (field, ',' :: rest) =>
    (readMembers rest).map fun result => (field :: result.1, result.2)
  | some (field, '}' :: rest) => some ([field], rest)
  | _ => none
termination_by cs.length
decreasing_by
  have := length_of_readMember _read
  simp only [List.length_cons] at this
  omega

/-- The fields of a text that is an object from end to end. -/
def readObject (cs : List Char) : Option (List (String × FieldValue)) :=
  match skipSpace cs with
  | '{' :: cs =>
    let read :=
      match skipSpace cs with
      | '}' :: cs => some ([], cs)
      | cs => readMembers cs
    match read with
    | some (fields, rest) => if (skipSpace rest).isEmpty then some fields else none
    | none => none
  | _ => none

end Json

/-- The record that a JSON text is. -/
def ofJson? (text : String) : Option Record := (Json.readObject text.toList).map ofList

end RecordFormula.Record
