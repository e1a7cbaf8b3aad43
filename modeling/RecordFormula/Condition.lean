import RecordFormula.Token

/-! # Conditions

An aggregate's argument may end in `WHERE` and a condition: comparisons of a field with a literal,
joined by `AND`. A literal is a number, which may have a sign, or a quoted text. Texts only admit `=`
and `<>`; two texts that both read as numbers are compared as numbers, other texts without regard to
letter case. A value without an order to the literal matches nothing, not even `<>`.
-/

namespace RecordFormula

/-- The comparison at the head of a token list, and the tokens behind it. -/
def Comparator.read? : List Token → Option (Comparator × List Token)
  | .operator first :: .operator second :: ts =>
    match Comparator.ofPair? first second with
    | some op => some (op, ts)
    | none => (Comparator.ofOperator? first).map (·, .operator second :: ts)
  | .operator op :: ts => (Comparator.ofOperator? op).map (·, ts)
  | _ => none

/-- The right side of a comparison. -/
inductive Literal where
  | number (x : Float)
  | text (s : String)
deriving BEq, Repr

/-- The literal at the head of a token list, and the tokens behind it. -/
def Literal.read? : List Token → Option (Literal × List Token)
  | .number x :: ts => some (.number x, ts)
  | .text s :: ts => some (.text s, ts)
  | .operator .minus :: .number x :: ts => some (.number (-x), ts)
  | .operator .plus :: .number x :: ts => some (.number x, ts)
  | _ => none

/-- The order of a field's value and the literal. -/
def Literal.order? : Literal → FieldValue → Option Ordering
  | .number x, value => value.number?.bind (Number.order? · x)
  | .text s, .text t =>
    match Number.ofText t, Number.ofText s with
    | some y, some x => Number.order? y x
    | _, _ => some (compare (Text.lowercase t) (Text.lowercase s))
  | .text s, .number y => (Number.ofText s).bind (Number.order? y)
  | .text _, .null => none

/-- A field compared with a literal. -/
structure Comparison where
  field : String
  op : Comparator
  literal : Literal
deriving BEq, Repr

namespace Comparison

/-- Whether a value of the field matches. -/
def accepts (comparison : Comparison) (value : FieldValue) : Bool :=
  (comparison.literal.order? value).any comparison.op.test

/-- The comparison at the head of a token list, and the tokens behind it. -/
def read : List Token → Except ConditionError (Comparison × List Token)
  | [] => .error .expectedAnotherField
  | .field field :: ts =>
    if isReserved field then .error (.expectedField field)
    else
      match Comparator.read? ts with
      | none => .error (.expectedComparator field)
      | some (op, ts) =>
        match Literal.read? ts with
        | none => .error (.expectedLiteral field op)
        | some (.text s, ts) =>
          if op.isEquality then .ok ({ field, op, literal := .text s }, ts)
          else .error (.textOrder field op)
        | some (literal, ts) => .ok ({ field, op, literal }, ts)
  | t :: _ => .error (.expectedField t.display)

end Comparison

theorem Comparator.length_of_read? {ts rest : List Token} {op : Comparator}
    (found : Comparator.read? ts = some (op, rest)) : rest.length < ts.length := by
  unfold Comparator.read? at found
  split at found
  · split at found
    · simp only [Option.some.injEq, Prod.mk.injEq] at found
      simp only [← found.2, List.length_cons]
      omega
    · simp only [Option.map_eq_some_iff, Prod.mk.injEq] at found
      obtain ⟨_, _, _, rfl⟩ := found
      simp
  · simp only [Option.map_eq_some_iff, Prod.mk.injEq] at found
    obtain ⟨_, _, _, rfl⟩ := found
    simp
  · simp at found

theorem Literal.length_of_read? {ts rest : List Token} {literal : Literal}
    (found : Literal.read? ts = some (literal, rest)) : rest.length < ts.length := by
  unfold Literal.read? at found
  split at found <;> simp only [Option.some.injEq, Prod.mk.injEq, reduceCtorEq] at found <;>
    simp only [← found.2, List.length_cons] <;> omega

theorem Comparison.length_of_read {ts rest : List Token} {comparison : Comparison}
    (found : Comparison.read ts = .ok (comparison, rest)) : rest.length < ts.length := by
  unfold Comparison.read at found
  split at found
  · simp at found
  · split at found
    · simp at found
    · split at found
      · simp at found
      · rename_i op_found
        have shorter := Comparator.length_of_read? op_found
        split at found
        · simp at found
        · rename_i literal_found
          have shortest := Literal.length_of_read? literal_found
          split at found <;> simp at found
          simp only [← found.2, List.length_cons]
          omega
        · rename_i literal_found
          have shortest := Literal.length_of_read? literal_found
          simp at found
          simp only [← found.2, List.length_cons]
          omega
  · simp at found

/-- Comparisons joined by `AND`. -/
structure Condition where
  comparisons : List Comparison
deriving BEq, Repr

namespace Condition

/-- The comparisons that a token list consists of. -/
def readAll (ts : List Token) : Except ConditionError (List Comparison) :=
  match _read : Comparison.read ts with
  | .error reason => .error reason
  | .ok (comparison, []) => .ok [comparison]
  | .ok (comparison, t :: rest) =>
    if t.isAnd then do
      let comparisons ← readAll rest
      pure (comparison :: comparisons)
    else .error (.trailing t.display)
termination_by ts.length
decreasing_by
  have := Comparison.length_of_read _read
  simp only [List.length_cons] at this
  omega

/-- The condition that the tokens behind `WHERE` are. -/
def parse (ts : List Token) : Except ParseError Condition :=
  if ts.isEmpty then .error (.invalidCondition .empty)
  else
    match readAll ts with
    | .ok comparisons => .ok ⟨comparisons⟩
    | .error reason => .error (.invalidCondition reason)

end Condition

/-- An argument split at its first `WHERE` outside parentheses, into the value and the condition.
`depth` is the number of parentheses open before. -/
def splitWhereFrom (depth : Nat) : List Token → Option (List Token × List Token)
  | [] => none
  | t :: ts =>
    let after (depth : Nat) := (splitWhereFrom depth ts).map fun parts => (t :: parts.1, parts.2)
    match t with
    | .operator .leftParen => after (depth + 1)
    | .operator .rightParen => after (depth - 1)
    | t => if depth = 0 ∧ t.isWhere = true then some ([], ts) else after depth

/-- An argument split at its first `WHERE` outside parentheses, into the value and the condition. -/
def splitWhere (ts : List Token) : Option (List Token × List Token) := splitWhereFrom 0 ts

end RecordFormula
