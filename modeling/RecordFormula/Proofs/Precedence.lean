import RecordFormula.Proofs.Rows
import RecordFormula.Proofs.Trees
import Mathlib.Data.Option.Basic

/-!
# Precedence

A tree without its parentheses and calls is a row: operands behind their signs, with operators between
them. The evaluation reads the operands of a row first and then carries out its operators level by
level. `Tree.row?` is the row that a tree is written as once its primaries are values.

Results:
1. `readSteps_terms`: a row is read as it was written.
2. `collapse_join`: a level leaves the operators of other levels where they are, so what is on either
   side of one is worked out by itself.
3. `reduceFlat_row`: the row of a tree is worth what the tree means.
-/

namespace RecordFormula

open RowsLemmas

/-- A value behind its signs. -/
structure Operand where
  signs : List Sign
  value : Value

/-- Operands with operators between them. -/
structure Row where
  first : Operand
  steps : List (BinaryOp × Operand)

namespace Operand

def terms (operand : Operand) : List Term :=
  operand.signs.map (.operator ·.operator) ++ [.value operand.value]

/-- The value with its signs folded into it. -/
def read (operand : Operand) : Except EvalError Value := operand.value.withSign (negates operand.signs)

end Operand

namespace Row

/-- A row of one operand without signs. -/
def single (value : Value) : Row := { first := { signs := [], value }, steps := [] }

/-- Two rows with an operator between them. -/
def join (op : BinaryOp) (left right : Row) : Row :=
  { first := left.first, steps := left.steps ++ (op, right.first) :: right.steps }

/-- The terms of the steps behind the first operand. -/
def stepTerms (steps : List (BinaryOp × Operand)) : List Term :=
  steps.flatMap fun step => step.1.operators.map .operator ++ step.2.terms

def terms (row : Row) : List Term := row.first.terms ++ stepTerms row.steps

/-- The steps with the signs folded into their operands. -/
def readAll : List (BinaryOp × Operand) → Except EvalError (List Step)
  | [] => .ok []
  | (op, operand) :: steps => do
    let value ← operand.read
    let values ← readAll steps
    pure ((op, value) :: values)

/-- The row with the signs folded into its operands. -/
def read (row : Row) : Except EvalError (Value × List Step) := do
  let value ← row.first.read
  let values ← readAll row.steps
  pure (value, values)

end Row

/-! ## Reading a row -/

namespace PrecedenceLemmas

variable {signs : List Sign} {value : Value} {operand : Operand} {rest : List Term} {op : BinaryOp}

theorem negates_plus : negates (.plus :: signs) = negates signs := by
  simp [negates]

theorem negates_minus : negates (.minus :: signs) = !negates signs := by
  unfold negates
  rw [List.count_cons_self, Nat.add_mod]
  rcases Nat.mod_two_eq_zero_or_one (signs.count .minus) with even | odd
  · rw [even]
    rfl
  · rw [odd]
    rfl

/-- The signs that the evaluation takes are folded as the tree's are. -/
theorem takeSigns_signs (negate : Bool) :
    takeSigns negate (signs.map (.operator ·.operator) ++ .value value :: rest) =
      (negate ^^ negates signs, .value value :: rest) := by
  induction signs generalizing negate with
  | nil => simp [takeSigns, negates]
  | cons sign signs ih =>
    cases sign with
    | plus =>
      rw [negates_plus]
      exact ih negate
    | minus =>
      rw [negates_minus, Bool.xor_not, ← Bool.not_xor]
      exact ih (!negate)

theorem readOperand_terms :
    readOperand (operand.terms ++ rest) = operand.read.map (·, rest) := by
  unfold readOperand Operand.terms
  rw [List.append_assoc, List.singleton_append, takeSigns_signs, Bool.false_xor]
  rfl

/-- No operator makes a comparison with what an operand starts with. -/
theorem pair?_terms (first : Operator) : pair? first (operand.terms ++ rest) = none := by
  unfold Operand.terms
  cases operand.signs with
  | nil => rfl
  | cons sign signs =>
    have single : Comparator.ofPair? first sign.operator = none := by
      cases sign <;> cases first <;> rfl
    simp [pair?, single]

theorem exists_operators (op : BinaryOp) :
    ∃ first others, op.operators = first :: others ∧ ∀ operand : Operand, ∀ rest : List Term,
      readOperator first (others.map .operator ++ (operand.terms ++ rest)) =
        .ok (op, operand.terms ++ rest) := by
  have one {first : Operator} {op : BinaryOp} (single : BinaryOp.ofOperator? first = some op)
      (operand : Operand) (rest : List Term) :
      readOperator first (operand.terms ++ rest) = .ok (op, operand.terms ++ rest) := by
    unfold readOperator
    simp only [pair?_terms, single]
  cases op with
  | compare comparator =>
    cases comparator with
    | equal | less | greater => exact ⟨_, [], rfl, one rfl⟩
    | notEqual | lessEqual | greaterEqual => exact ⟨_, [_], rfl, fun _ _ => rfl⟩
  | _ => exact ⟨_, [], rfl, one rfl⟩

end PrecedenceLemmas

open PrecedenceLemmas

/-- A row is read as it was written. -/
theorem readSteps_terms (row : Row) : readSteps row.terms = row.read := by
  obtain ⟨first, steps⟩ := row
  unfold Row.terms Row.read
  induction steps generalizing first with
  | nil =>
    have operand : readOperand (first.terms ++ []) = first.read.map (·, []) := readOperand_terms
    show readSteps (first.terms ++ []) = _
    cases value : first.read with
    | error reason => exact readSteps_of_error (operand.trans (by rw [value]; rfl))
    | ok value' => exact readSteps_of_last (operand.trans (by rw [value]; rfl))
  | cons step steps ih =>
    obtain ⟨op, second⟩ := step
    obtain ⟨c, others, operators, written⟩ := exists_operators op
    have steps_eq : Row.stepTerms ((op, second) :: steps) =
        .operator c :: (others.map .operator ++ (second.terms ++ Row.stepTerms steps)) := by
      simp [Row.stepTerms, operators]
    have operand : readOperand (first.terms ++ Row.stepTerms ((op, second) :: steps)) =
        first.read.map (·, Row.stepTerms ((op, second) :: steps)) := readOperand_terms
    cases value : first.read with
    | error reason => exact readSteps_of_error (operand.trans (by rw [value]; rfl))
    | ok value' =>
      rw [value, steps_eq] at operand
      rw [steps_eq, readSteps_of_operator operand, written]
      show (readSteps (second.terms ++ Row.stepTerms steps)).map _ = _
      rw [ih, Row.readAll]
      cases second.read with
      | error reason => rfl
      | ok next => cases Row.readAll steps <;> rfl

/-! ## Working out a row -/

namespace PrecedenceLemmas

variable {level : Nat} {left right : Value} {front back : List Step} {op : BinaryOp}

theorem collapse_of_level (same : op.level = level) :
    collapse level left ((op, right) :: back) =
      op.apply left right >>= fun value => collapse level value back := by
  rw [collapse, if_pos same]

theorem collapse_of_other (other : op.level ≠ level) :
    collapse level left ((op, right) :: back) =
      (collapse level right back).map fun (right, steps) => (left, (op, right) :: steps) := by
  rw [collapse, if_neg other]
  cases collapse level right back <;> rfl

/-- A level leaves an operator of another level where it is, and works out both of its sides. -/
theorem collapse_join (other : op.level ≠ level) :
    collapse level left (front ++ (op, right) :: back) = (do
      let (left, front) ← collapse level left front
      let (right, back) ← collapse level right back
      pure (left, front ++ (op, right) :: back)) := by
  induction front generalizing left with
  | nil =>
    rw [List.nil_append, collapse_of_other other, collapse]
    cases collapse level right back <;> rfl
  | cons step front ih =>
    obtain ⟨first, next⟩ := step
    rw [List.cons_append]
    by_cases same : first.level = level
    · rw [collapse_of_level same, collapse_of_level same]
      cases first.apply left next with
      | error reason => rfl
      | ok value => exact ih
    · rw [collapse_of_other same, collapse_of_other same, ih]
      cases collapse level next front with
      | error reason => rfl
      | ok done => cases collapse level right back <;> rfl

/-- Steps that a level carries out completely leave their value for what is behind them. -/
theorem collapse_append {value : Value} (done : collapse level left front = .ok (value, [])) :
    collapse level left (front ++ back) = collapse level value back := by
  induction front generalizing left with
  | nil =>
    obtain ⟨rfl, -⟩ := Prod.mk.inj (Except.ok.inj done)
    rfl
  | cons step front ih =>
    obtain ⟨first, next⟩ := step
    by_cases same : first.level = level
    · rw [collapse_of_level same] at done
      rw [List.cons_append, collapse_of_level same]
      cases applied : first.apply left next with
      | error reason => simp [applied, bind, Except.bind] at done
      | ok value =>
        rw [applied] at done
        exact ih done
    · rw [collapse_of_other same] at done
      obtain ⟨inner, -, stays⟩ := exists_of_map_eq_ok done
      simp at stays

theorem collapse_append_of_error {reason : EvalError}
    (failed : collapse level left front = .error reason) :
    collapse level left (front ++ back) = .error reason := by
  induction front generalizing left with
  | nil => simp [collapse] at failed
  | cons step front ih =>
    obtain ⟨first, next⟩ := step
    by_cases same : first.level = level
    · rw [collapse_of_level same] at failed
      rw [List.cons_append, collapse_of_level same]
      cases applied : first.apply left next with
      | error reason' =>
        rw [applied] at failed
        exact failed
      | ok value =>
        rw [applied] at failed
        exact ih failed
    · rw [collapse_of_other same] at failed
      rw [List.cons_append, collapse_of_other same]
      cases inner : collapse level next front with
      | error reason' =>
        rw [inner] at failed
        obtain rfl : reason' = reason := Except.error.inj failed
        rw [ih inner]
        rfl
      | ok done => simp [inner, Except.map] at failed

end PrecedenceLemmas

/-- Works out the tightest levels of a row, one after the other: none in no rounds, the products in
one, the sums in two and the comparisons in three. -/
def workOut : (rounds : Nat) → Value × List Step → Except EvalError (Value × List Step)
  | 0, row => .ok row
  | rounds + 1, row => do
    let (value, steps) ← workOut rounds row
    collapse (2 - rounds) value steps

/-- What is left of a row after some rounds. -/
def Row.after? (row : Row) (rounds : Nat) : Option (Value × List Step) :=
  (row.read >>= workOut rounds).toOption

/-- The row that a tree is written as once its primaries are values. -/
def Tree.row? {level : Nat} (ctx : Context) : Tree level → Option Row
  | .tighter tree => tree.row? ctx
  | .binary op left right => do pure (Row.join op (← left.row? ctx) (← right.row? ctx))
  | .signed signs operand => (operand.value? ctx).map fun value =>
    { first := { signs, value }, steps := [] }
  | .number x => some (.single (.number x))
  | .text s => some (.single (.text s))
  | .field name _ => (ctx.fieldValue name).toOption.map .single
  | .group inner => (inner.value? ctx).map .single
  | .call function args => ((Tree.call function args).value? ctx).map .single
  | .filtered function aggregate value clause more =>
    ((Tree.filtered function aggregate value clause more).value? ctx).map .single

theorem Tree.row?_binary (op : BinaryOp) (left : Tree op.level) (right : Tree (op.level + 1))
    (ctx : Context) :
    (Tree.binary op left right).row? ctx =
      (left.row? ctx).bind fun a => (right.row? ctx).bind fun b => some (Row.join op a b) := rfl

namespace PrecedenceLemmas

theorem readAll_append (front back : List (BinaryOp × Operand)) :
    Row.readAll (front ++ back) = (do
      let values ← Row.readAll front
      let more ← Row.readAll back
      pure (values ++ more)) := by
  induction front with
  | nil =>
    rw [List.nil_append]
    cases Row.readAll back <;> rfl
  | cons step front ih =>
    obtain ⟨op, operand⟩ := step
    rw [List.cons_append, Row.readAll, Row.readAll, ih]
    cases operand.read with
    | error reason => rfl
    | ok value =>
      cases Row.readAll front with
      | error reason => rfl
      | ok values => cases Row.readAll back <;> rfl

theorem read_join (op : BinaryOp) (left right : Row) :
    (Row.join op left right).read = (do
      let (value, steps) ← left.read
      let (next, more) ← right.read
      pure (value, steps ++ (op, next) :: more)) := by
  unfold Row.join Row.read
  cases left.first.read with
  | error reason => rfl
  | ok value =>
    show (Row.readAll (left.steps ++ (op, right.first) :: right.steps) >>= _) = _
    rw [readAll_append, Row.readAll]
    cases Row.readAll left.steps with
    | error reason => rfl
    | ok steps =>
      cases right.first.read with
      | error reason => rfl
      | ok next => cases Row.readAll right.steps <;> rfl

/-- Rounds that do not reach an operator's level work out both of its sides. -/
theorem workOut_join {rounds : Nat} {op : BinaryOp} (beyond : op.level + rounds < 3)
    (left right : Value × List Step) :
    (workOut rounds (left.1, left.2 ++ (op, right.1) :: right.2)).toOption =
      (workOut rounds left).toOption.bind fun x =>
        (workOut rounds right).toOption.bind fun y => some (x.1, x.2 ++ (op, y.1) :: y.2) := by
  induction rounds with
  | zero => rfl
  | succ rounds ih =>
    -- The round works on both sides, and so did the rounds before it: left, right, left, right has
    -- to become left, left, right, right.
    have other : op.level ≠ 2 - rounds := by omega
    have both (x y : Value × List Step) :
        (collapse (2 - rounds) x.1 (x.2 ++ (op, y.1) :: y.2)).toOption =
          (collapse (2 - rounds) x.1 x.2).toOption.bind fun x =>
            (collapse (2 - rounds) y.1 y.2).toOption.bind fun y =>
              some (x.1, x.2 ++ (op, y.1) :: y.2) := by
      rw [collapse_join other]
      simp only [toOption_bind]
      rfl
    simp only [workOut, toOption_bind, ih (by omega), Option.bind_assoc, Option.bind_some, both]
    refine Option.bind_congr fun x _ => ?_
    rw [Option.bind_comm]

theorem after?_join {rounds : Nat} {op : BinaryOp} (beyond : op.level + rounds < 3)
    (left right : Row) :
    (Row.join op left right).after? rounds =
      (left.after? rounds).bind fun x =>
        (right.after? rounds).bind fun y => some (x.1, x.2 ++ (op, y.1) :: y.2) := by
  simp only [Row.after?, read_join, toOption_bind, Option.bind_assoc]
  refine Option.bind_congr fun x _ => ?_
  rw [Option.bind_comm]
  refine Option.bind_congr fun y _ => ?_
  exact workOut_join beyond x y

theorem after?_succ (row : Row) (rounds : Nat) :
    row.after? (rounds + 1) =
      (row.after? rounds).bind fun x => (collapse (2 - rounds) x.1 x.2).toOption := by
  simp only [Row.after?, workOut, toOption_bind, Option.bind_assoc]

theorem after?_operand (signs : List Sign) (value : Value) (rounds : Nat) :
    Row.after? { first := { signs, value }, steps := [] } rounds =
      (value.withSign (negates signs)).toOption.map (·, []) := by
  induction rounds with
  | zero =>
    show ((value.withSign (negates signs)) >>= _ >>= _).toOption = _
    cases value.withSign (negates signs) <;> rfl
  | succ rounds ih =>
    rw [after?_succ, ih]
    cases (value.withSign (negates signs)).toOption <;> rfl

theorem after?_single (value : Value) (rounds : Nat) :
    (Row.single value).after? rounds = some (value, []) :=
  after?_operand [] value rounds

theorem bind_single (value? : Option Value) (rounds : Nat) :
    ((value?.map Row.single).bind fun row => row.after? rounds) = value?.map (·, []) := by
  cases value? with
  | none => rfl
  | some value => exact after?_single value rounds

theorem collapse_concat {level : Nat} {op : BinaryOp} (same : op.level = level)
    {value? : Option Value} {row : Option (Value × List Step)} (next : Value)
    (done : (row.bind fun x => (collapse level x.1 x.2).toOption) = value?.map (·, [])) :
    (row.bind fun x => (collapse level x.1 (x.2 ++ [(op, next)])).toOption) =
      (value?.bind fun value => (op.apply value next).toOption).map (·, []) := by
  cases row with
  | none =>
    cases value? with
    | none => rfl
    | some value => exact absurd done (by simp)
  | some x =>
    rw [Option.bind_some] at done ⊢
    cases front : collapse level x.1 x.2 with
    | error reason =>
      rw [front] at done
      rw [collapse_append_of_error front]
      cases value? with
      | none => rfl
      | some value => exact absurd done (by simp [Except.toOption])
    | ok y =>
      rw [front] at done
      cases value? with
      | none => exact absurd done (by simp [Except.toOption])
      | some value =>
        obtain rfl : y = (value, []) := Option.some.inj done
        rw [collapse_append front, collapse_of_level same, toOption_bind, Option.bind_some]
        cases op.apply value next <;> rfl

end PrecedenceLemmas

theorem Tree.after?_row {level : Nat} (tree : Tree level) (ctx : Context) :
    ((tree.row? ctx).bind fun row => row.after? (3 - level)) = (tree.value? ctx).map (·, []) := by
  induction tree with
  | tighter tree ih =>
    rename_i level
    rw [Tree.row?, Tree.value?]
    by_cases plain : 3 ≤ level
    · rwa [Nat.sub_eq_zero_of_le plain, ← Nat.sub_eq_zero_of_le (Nat.le_succ_of_le plain)]
    · have more : 3 - level = 3 - (level + 1) + 1 := by omega
      rw [more]
      simp only [after?_succ, ← Option.bind_assoc]
      rw [ih]
      cases tree.value? ctx <;> rfl
  | binary op left right ihl ihr =>
    have reached : op.level ≤ 2 := by cases op <;> simp [BinaryOp.level]
    have more : 3 - op.level = 3 - (op.level + 1) + 1 := by omega
    have here : 2 - (3 - (op.level + 1)) = op.level := by omega
    have beyond : op.level + (3 - (op.level + 1)) < 3 := by omega
    have sides : (((Tree.binary op left right).row? ctx).bind fun row =>
          row.after? (3 - (op.level + 1))) =
        ((left.row? ctx).bind fun row => row.after? (3 - (op.level + 1))).bind fun x =>
          (right.value? ctx).bind fun next => some (x.1, x.2 ++ [(op, next)]) := by
      simp only [Tree.row?_binary, Option.bind_assoc, Option.bind_some, after?_join beyond]
      refine Option.bind_congr fun a _ => ?_
      rw [Option.bind_comm]
      refine Option.bind_congr fun x _ => ?_
      rw [← Option.bind_assoc, ihr, Option.bind_map]
      rfl
    rw [more] at ihl ⊢
    simp only [after?_succ, ← Option.bind_assoc, here] at ihl ⊢
    rw [sides, Option.bind_assoc]
    cases next : right.value? ctx with
    | none =>
      rw [Tree.value?_binary, next]
      simp
    | some next' =>
      rw [Tree.value?_binary, next]
      exact collapse_concat rfl next' ihl
  | signed signs operand ih =>
    rw [Tree.row?, Tree.value?_signed, Option.bind_map]
    simp only [Function.comp_def, after?_operand]
    cases operand.value? ctx <;> rfl
  | number | text =>
    rw [Tree.row?, Tree.value?, Option.bind_some, after?_single]
    rfl
  | field | group | call | filtered =>
    rw [Tree.row?]
    exact bind_single _ _

theorem Row.terms_join (op : BinaryOp) (left right : Row) :
    (Row.join op left right).terms =
      left.terms ++ (op.operators.map .operator ++ right.terms) := by
  simp [Row.join, Row.terms, Row.stepTerms]

theorem Row.terms_signed (signs : List Sign) (value : Value) :
    Row.terms { first := { signs, value }, steps := [] } =
      signs.map (.operator ·.operator) ++ (Row.single value).terms := by
  simp [Row.single, Row.terms, Row.stepTerms, Operand.terms]

theorem Row.terms_ne_nil (row : Row) : row.terms ≠ [] := by
  unfold Row.terms Operand.terms
  simp

/-- The row of a tree is worth what the tree means. -/
theorem Tree.reduceFlat_row (tree : Tree 0) (ctx : Context) :
    ((tree.row? ctx).bind fun row => (reduceFlat row.terms).toOption) = tree.value? ctx := by
  have flat (row : Row) :
      (reduceFlat row.terms).toOption = (row.after? 3).bind fun x => some x.1 := by
    unfold reduceFlat Row.after?
    rw [List.isEmpty_eq_false_iff.mpr row.terms_ne_nil, readSteps_terms, toOption_bind]
    simp only [workOut, Bool.false_eq_true, if_false, toOption_bind, Option.bind_assoc]
    rfl
  simp only [flat, ← Option.bind_assoc]
  rw [tree.after?_row ctx]
  cases tree.value? ctx <;> rfl

end RecordFormula
