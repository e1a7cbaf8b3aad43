import RecordFormula.Proofs.CleanScan
import RecordFormula.Proofs.Failure

/-!
# Rows

A row of values and operators is read in two ways: the check of the structure goes through it from the
left with what it expects next, and the evaluation takes signs, an operand and an operator at a time.
`scanRow` is the first way for a row whose calls and names are values already.

Results:
1. `readSteps_cases`: a row is read exactly if its scan ends with an operand, up to failures that are
   due to the values.
2. `scanRow_of_reduceFlat` and `onlyFails_reduceFlat`: the same for the value of the row.
3. `no_value_of_operators` and `malformed_reduceFlat`: a row with operators at its end has no value,
   and if it has one without them it is not well formed.
-/

namespace RecordFormula

open CleanScanLemmas

namespace Previous

/-- What a term leaves a scan of a row expecting, if it may stand there. -/
def next? (previous : Previous) : Term → Option Previous
  | .value _ => if previous = .operand then none else some .operand
  | .operator op => if op.joins then previous.after? op else none

/-- Whether an operator completes a comparison of two characters. -/
def completes (op : Operator) : Previous → Bool
  | .operator first paired => (Comparator.ofPair? first op).isSome && !paired
  | _ => false

end Previous

/-- What a row leaves a scan expecting, if there is nothing wrong in it. -/
def scanRow (previous : Previous) : List Term → Option Previous
  | [] => some previous
  | t :: ts => (previous.next? t).bind (scanRow · ts)

/-- A row whose first term is not the second character of a comparison. -/
def Unpaired (previous : Previous) (ts : List Term) : Prop :=
  ∀ op rest, ts = .operator op :: rest → previous.completes op = false

namespace RowsLemmas

variable {previous : Previous} {op : Operator} {ts rest : List Term} {value : Value}

theorem scanRow_append {front back : List Term} :
    scanRow previous (front ++ back) = (scanRow previous front).bind (scanRow · back) := by
  induction front generalizing previous with
  | nil => rfl
  | cons t front ih =>
    rw [List.cons_append, scanRow, scanRow]
    cases previous.next? t with
    | none => rfl
    | some next => exact ih

theorem scanRow_value (waits : previous ≠ .operand) :
    scanRow previous (.value value :: ts) = scanRow .operand ts := by
  rw [scanRow, Previous.next?, if_neg waits, Option.bind_some]

theorem scanRow_operator (joins : op.joins = true) :
    scanRow previous (.operator op :: ts) = (previous.after? op).bind (scanRow · ts) := by
  rw [scanRow, Previous.next?, if_pos joins]

theorem scanRow_other (joins : op.joins = false) :
    scanRow previous (.operator op :: ts) = none := by
  rw [scanRow, Previous.next?, if_neg (by simp [joins]), Option.bind_none]

theorem scanRow_of_join {row : List Term} {term : Term} {next : Previous}
    (scanned : scanRow .start (row ++ [term]) = some next) :
    ∃ previous, scanRow .start row = some previous ∧ previous.next? term = some next := by
  rw [scanRow_append, Option.bind_eq_some_iff] at scanned
  obtain ⟨previous, front, step⟩ := scanned
  refine ⟨previous, front, ?_⟩
  rw [scanRow, Option.bind_eq_some_iff] at step
  obtain ⟨after, step, same⟩ := step
  rw [step, ← Option.some.inj same]

theorem next?_value {next : Previous} (step : previous.next? (.value value) = some next) :
    previous ≠ .operand ∧ next = .operand := by
  rw [Previous.next?] at step
  split at step
  · exact absurd step (by simp)
  · rename_i free
    exact ⟨free, (Option.some.inj step).symm⟩

theorem next?_operator {next : Previous} (step : previous.next? (.operator op) = some next) :
    op.joins = true ∧ previous.after? op = some next := by
  rw [Previous.next?] at step
  split at step
  · rename_i joins
    exact ⟨joins, step⟩
  · exact absurd step (by simp)

theorem after?_eq (waits : previous ≠ .operand) (unpaired : previous.completes op = false) :
    previous.after? op = if op.isSign then some (.operator op false) else none := by
  cases previous with
  | start => rfl
  | operand => exact absurd rfl waits
  | operator first paired =>
    rw [Previous.completes] at unpaired
    rw [Previous.after?, unpaired]
    rfl

theorem joins_of_isSign (sign : op.isSign = true) : op.joins = true := by
  cases op <;> first | rfl | simp [Operator.isSign] at sign

theorem completes_after_sign {second : Operator} (sign : op.isSign = true) (paired : Bool) :
    (Previous.operator op paired).completes second = false := by
  cases op <;> first | rfl | simp [Operator.isSign] at sign

theorem takeSigns_sign (sign : op.isSign = true) (negate : Bool) :
    ∃ negate', takeSigns negate (.operator op :: ts) = takeSigns negate' ts := by
  cases op with
  | plus => exact ⟨negate, rfl⟩
  | minus => exact ⟨!negate, rfl⟩
  | _ => simp [Operator.isSign] at sign

theorem takeSigns_other (other : op.isSign = false) (negate : Bool) :
    takeSigns negate (.operator op :: ts) = (negate, .operator op :: ts) := by
  cases op <;> first | rfl | simp [Operator.isSign] at other

/-- A scan goes through the signs that the evaluation takes. -/
theorem scanRow_takeSigns (waits : previous ≠ .operand) (unpaired : Unpaired previous ts)
    (negate : Bool) :
    ∃ next, next ≠ .operand ∧ scanRow previous ts = scanRow next (takeSigns negate ts).2 ∧
      ∀ op rest, (takeSigns negate ts).2 = .operator op :: rest → next.next? (.operator op) = none := by
  induction ts generalizing previous negate with
  | nil => exact ⟨previous, waits, rfl, fun _ _ same => by simp [takeSigns] at same⟩
  | cons t ts ih =>
    cases t with
    | value v => exact ⟨previous, waits, rfl, fun _ _ same => by simp [takeSigns] at same⟩
    | operator op =>
      have after := after?_eq waits (unpaired op ts rfl)
      cases sign : op.isSign with
      | true =>
        obtain ⟨negate', taken⟩ : ∃ negate', takeSigns negate (.operator op :: ts) =
          takeSigns negate' ts := takeSigns_sign sign negate
        have step : scanRow previous (.operator op :: ts) = scanRow (.operator op false) ts := by
          rw [scanRow_operator (joins_of_isSign sign), after, if_pos sign, Option.bind_some]
        rw [taken, step]
        exact ih (by simp) (fun _ _ _ => completes_after_sign sign false) negate'
      | false =>
        rw [takeSigns_other sign]
        refine ⟨previous, waits, rfl, fun op' rest same => ?_⟩
        obtain rfl : op = op' := Term.operator.inj (List.cons.inj same).1
        rw [Previous.next?, after, sign]
        simp

theorem readSteps_of_error {reason : EvalError} (found : readOperand ts = .error reason) :
    readSteps ts = .error reason := by
  rw [readSteps.eq_def]
  split <;> simp_all

theorem readSteps_of_last (found : readOperand ts = .ok (value, [])) :
    readSteps ts = .ok (value, []) := by
  rw [readSteps.eq_def]
  split <;> simp_all

theorem readSteps_of_value {next : Value}
    (found : readOperand ts = .ok (value, .value next :: rest)) :
    readSteps ts = .error (.malformed (.unexpectedToken next.display)) := by
  rw [readSteps.eq_def]
  split <;> simp_all

theorem readSteps_of_operator (found : readOperand ts = .ok (value, .operator op :: rest)) :
    readSteps ts = readOperator op rest >>= fun (binary, behind) =>
      (readSteps behind).map fun (next, steps) => (value, (binary, next) :: steps) := by
  rw [readSteps.eq_def]
  split
  · rename_i first
    simp [found] at first
  · rename_i first
    simp [found] at first
  · rename_i first
    simp [found] at first
  · rename_i first
    rw [found] at first
    obtain ⟨rfl, behind⟩ := Prod.mk.inj (Except.ok.inj first)
    obtain ⟨head, rfl⟩ := List.cons.inj behind
    obtain rfl := Term.operator.inj head
    split
    · rename_i second
      rw [second]
      rfl
    · rename_i binary behind second
      rw [second]
      cases third : readSteps behind <;> simp [bind, Except.bind, Except.map, third]

theorem readOperator_of_other (joins : op.joins = false) :
    readOperator op ts = .error (.malformed (.unexpectedToken op.text)) := by
  have single : pair? op ts = none := by
    cases ts with
    | nil => rfl
    | cons t ts =>
      cases t with
      | value v => rfl
      | operator second => cases op <;> first | rfl | simp [Operator.joins] at joins
  have noBinary : BinaryOp.ofOperator? op = none := by
    cases op <;> first | rfl | simp [Operator.joins] at joins
  rw [readOperator, single]
  simp [noBinary]

/-- An operator is read, with its second character or without, as the scan goes through it. -/
theorem scanRow_readOperator (joins : op.joins = true) :
    ∃ binary behind next, readOperator op ts = .ok (binary, behind) ∧ next ≠ .operand ∧
      Unpaired next behind ∧ scanRow (.operator op false) ts = scanRow next behind := by
  cases paired : pair? op ts with
  | some found =>
    obtain ⟨comparator, behind⟩ := found
    refine ⟨.compare comparator, behind, ?_⟩
    cases ts with
    | nil => simp [pair?] at paired
    | cons t ts =>
      cases t with
      | value v => simp [pair?] at paired
      | operator second =>
        rw [pair?, Option.map_eq_some_iff] at paired
        obtain ⟨_, isPair, same⟩ := paired
        obtain ⟨rfl, rfl⟩ := Prod.mk.inj same
        have secondJoins : second.joins = true := by
          cases second <;> first | rfl | cases op <;> simp [Comparator.ofPair?] at isPair
        refine ⟨.operator second true, ?_, by simp, ?_, ?_⟩
        · simp [readOperator, pair?, isPair]
        · intro third rest _
          simp [Previous.completes]
        · rw [scanRow_operator secondJoins, Previous.after?, isPair]
          rfl
  | none =>
    obtain ⟨binary, single⟩ : ∃ binary, BinaryOp.ofOperator? op = some binary := by
      cases op <;> first | exact ⟨_, rfl⟩ | simp [Operator.joins] at joins
    refine ⟨binary, ts, .operator op false, ?_, by simp, ?_, rfl⟩
    · rw [readOperator, paired]
      simp [single]
    · rintro second rest rfl
      rw [pair?, Option.map_eq_none_iff] at paired
      rw [Previous.completes, paired]
      rfl

end RowsLemmas

open RowsLemmas

/-- The evaluation reads a row exactly if the scan of the row ends with an operand. Where the scan is
fine the evaluation can still fail for the values. -/
theorem readSteps_cases {previous : Previous} {ts : List Term} (waits : previous ≠ .operand)
    (unpaired : Unpaired previous ts) :
    (scanRow previous ts = some .operand ∧ OnlyFailsOfValues (readSteps ts)) ∨
      (scanRow previous ts ≠ some .operand ∧ ∃ reason, readSteps ts = .error reason) := by
  -- On the length of the row: signs, an operand and both characters of an operator are one step.
  induction length : ts.length using Nat.strongRecOn generalizing previous ts with
  | ind n ih =>
    subst length
    obtain ⟨next, waits, scanned, stops⟩ := scanRow_takeSigns waits unpaired false
    have shorter := length_takeSigns_le false ts
    rw [scanned]
    rcases taken : takeSigns false ts with ⟨negate, _ | ⟨t, rest⟩⟩
    · have failed : readOperand ts = .error (.malformed (.incomplete .lastOperand)) := by
        rw [readOperand, taken]
      exact .inr ⟨by simpa [scanRow] using waits, _, readSteps_of_error failed⟩
    cases t with
    | operator op =>
      have failed : readOperand ts = .error (.malformed (.incomplete (.operandBefore op))) := by
        rw [readOperand, taken]
      have stopped : scanRow next (.operator op :: rest) = none := by
        rw [scanRow, stops op rest (by rw [taken]), Option.bind_none]
      exact .inr ⟨by simp [stopped], _, readSteps_of_error failed⟩
    | value v =>
      have read : readOperand ts = (v.withSign negate).map (·, rest) := by
        rw [readOperand, taken]
      rw [taken] at shorter
      rw [scanRow_value waits]
      have signed := onlyFails_withSign negate v
      cases operand : v.withSign negate with
      | error reason =>
        rw [operand] at read signed
        have failed := readSteps_of_error read
        by_cases ends : scanRow .operand rest = some .operand
        · exact .inl ⟨ends, by rw [failed]; exact .error (signed reason rfl)⟩
        · exact .inr ⟨ends, reason, failed⟩
      | ok value =>
        rw [operand] at read
        rcases rest with _ | ⟨t, rest⟩
        · rw [readSteps_of_last read]
          exact .inl ⟨rfl, .ok _⟩
        cases t with
        | value v =>
          exact .inr ⟨by simp [scanRow, Previous.next?], _, readSteps_of_value read⟩
        | operator op =>
          rw [readSteps_of_operator read]
          cases joins : op.joins with
          | false =>
            rw [scanRow_other joins, readOperator_of_other joins]
            exact .inr ⟨by simp, _, rfl⟩
          | true =>
            obtain ⟨binary, behind, next, found, waits, unpaired, scanned⟩ :
              ∃ binary behind next, readOperator op rest = .ok (binary, behind) ∧ _ :=
              scanRow_readOperator joins
            have fewer := length_of_readOperator found
            rw [scanRow_operator joins, show Previous.after? op .operand = some _ from rfl,
              Option.bind_some, scanned, found]
            have steps := ih behind.length
              (by simp only [List.length_cons] at shorter; omega) waits unpaired rfl
            rcases steps with ⟨ends, fails⟩ | ⟨stops, reason, failed⟩
            · exact .inl ⟨ends, fails.map⟩
            · refine .inr ⟨stops, reason, ?_⟩
              show (readSteps behind).map _ = _
              rw [failed]
              rfl

/-! ## The value of a row -/

/-- The evaluation works out a row that scans to an operand, up to failures due to the values. -/
theorem onlyFails_reduceFlat {row : List Term} (scanned : scanRow .start row = some .operand) :
    OnlyFailsOfValues (reduceFlat row) := by
  have full : row.isEmpty = false := by
    cases row with
    | nil => simp [scanRow] at scanned
    | cons t row => rfl
  rw [reduceFlat, full]
  have unpaired : Unpaired .start row := fun _ _ _ => rfl
  rcases readSteps_cases (by simp) unpaired with ⟨-, fails⟩ | ⟨stops, -⟩
  · refine fails.bind fun steps _ => ?_
    refine (onlyFails_collapse 2 _ _).bind fun products _ => ?_
    refine (onlyFails_collapse 1 _ _).bind fun sums _ => ?_
    exact (onlyFails_collapse 0 _ _).bind fun _ _ => .ok _
  · exact absurd scanned stops

theorem readSteps_of_reduceFlat {row : List Term} {value : Value}
    (found : reduceFlat row = .ok value) : ∃ steps, readSteps row = .ok steps := by
  rw [reduceFlat] at found
  split at found
  · simp at found
  · cases read : readSteps row with
    | error reason => simp [read, bind, Except.bind] at found
    | ok steps => exact ⟨steps, rfl⟩

/-- A row that has a value scans to an operand. -/
theorem scanRow_of_reduceFlat {row : List Term} {value : Value}
    (found : reduceFlat row = .ok value) : scanRow .start row = some .operand := by
  obtain ⟨steps, read⟩ := readSteps_of_reduceFlat found
  have unpaired : Unpaired .start row := fun _ _ _ => rfl
  rcases readSteps_cases (by simp) unpaired with ⟨ends, -⟩ | ⟨-, reason, failed⟩
  · exact ends
  · rw [read] at failed
    exact absurd failed (by simp)

/-! ## Operators at the end of a row -/

namespace RowsLemmas

variable {ts : List Term}

theorem takeSigns_append {start negate : Bool} {value : Value} {rest : List Term}
    (back : List Term) (taken : takeSigns start ts = (negate, .value value :: rest)) :
    takeSigns start (ts ++ back) = (negate, .value value :: (rest ++ back)) := by
  fun_induction takeSigns start ts with
  | case1 start ts ih => exact ih taken
  | case2 start ts ih => exact ih taken
  | case3 start ts plus minus =>
    obtain ⟨rfl, rfl⟩ := Prod.mk.inj taken
    rfl

theorem takeSigns_operators (ops : List Operator) (negate : Bool) :
    (takeSigns negate (ops.map .operator)).2 = [] ∨
      ∃ op rest, (takeSigns negate (ops.map .operator)).2 = .operator op :: rest := by
  induction ops generalizing negate with
  | nil => exact .inl rfl
  | cons op ops ih =>
    cases sign : op.isSign with
    | true =>
      obtain ⟨negate', taken⟩ : ∃ negate', takeSigns negate (.operator op :: ops.map .operator) =
        takeSigns negate' (ops.map .operator) := takeSigns_sign sign negate
      rw [List.map_cons, taken]
      exact ih negate'
    | false =>
      rw [List.map_cons, takeSigns_other sign]
      exact .inr ⟨op, _, rfl⟩

theorem readOperand_operators (ops : List Operator) :
    ∃ reason, readOperand (ops.map .operator) = .error (.malformed reason) := by
  rcases takeSigns_operators ops false with empty | ⟨op, rest, head⟩
  · refine ⟨.incomplete .lastOperand, ?_⟩
    rw [readOperand, show takeSigns false _ = (_, _) from rfl, empty]
  · refine ⟨.incomplete (.operandBefore op), ?_⟩
    rw [readOperand, show takeSigns false _ = (_, _) from rfl, head]

theorem readOperand_append {value : Value} {rest : List Term} (back : List Term)
    (read : readOperand ts = .ok (value, rest)) :
    readOperand (ts ++ back) = .ok (value, rest ++ back) := by
  rw [readOperand] at read
  split at read
  · rename_i negate operand behind taken
    rw [readOperand, takeSigns_append back taken]
    cases signed : operand.withSign negate with
    | error reason => simp [signed, Except.map] at read
    | ok value' =>
      rw [signed] at read
      obtain ⟨rfl, rfl⟩ := Prod.mk.inj (Except.ok.inj read)
      simp [signed, Except.map]
  · simp at read
  · simp at read

theorem pair?_append {op : Operator} {back : List Term} (full : ts ≠ []) :
    pair? op (ts ++ back) = (pair? op ts).map fun found => (found.1, found.2 ++ back) := by
  cases ts with
  | nil => exact absurd rfl full
  | cons t ts =>
    cases t with
    | value v => rfl
    | operator second => simp [pair?, Function.comp_def]

theorem readOperator_append {op : Operator} {binary : BinaryOp} {behind back : List Term}
    (full : ts ≠ []) (read : readOperator op ts = .ok (binary, behind)) :
    readOperator op (ts ++ back) = .ok (binary, behind ++ back) := by
  rw [readOperator] at read ⊢
  rw [pair?_append full]
  cases paired : pair? op ts with
  | some found =>
    rw [paired] at read
    obtain ⟨rfl, rfl⟩ := Prod.mk.inj (Except.ok.inj read)
    rfl
  | none =>
    rw [paired] at read
    cases single : BinaryOp.ofOperator? op with
    | none => simp [single] at read
    | some binary' =>
      simp only [single, Except.ok.injEq, Prod.mk.injEq] at read
      obtain ⟨rfl, rfl⟩ := read
      simp

theorem readOperator_operators (ops : List Operator) {op : Operator} (joins : op.joins = true) :
    ∃ (binary : BinaryOp) (rest : List Operator),
      readOperator op (ops.map .operator) = .ok (binary, rest.map .operator) := by
  obtain ⟨binary, behind, -, read, -⟩ :
    ∃ binary behind next, readOperator op (ops.map .operator) = .ok (binary, behind) ∧ _ :=
    scanRow_readOperator joins
  have tail : behind = ops.map .operator ∨ behind = ops.tail.map .operator := by
    rw [readOperator] at read
    split at read
    · rename_i comparator rest paired
      obtain ⟨-, rfl⟩ := Prod.mk.inj (Except.ok.inj read)
      cases ops with
      | nil => simp [pair?] at paired
      | cons second ops =>
        rw [List.map_cons, pair?, Option.map_eq_some_iff] at paired
        obtain ⟨_, _, same⟩ := paired
        exact .inr (Prod.mk.inj same).2.symm
    · split at read
      · exact .inl (Prod.mk.inj (Except.ok.inj read)).2.symm
      · simp at read
  rcases tail with rfl | rfl
  · exact ⟨binary, ops, read⟩
  · exact ⟨binary, ops.tail, read⟩

end RowsLemmas

/-- A row that can be read cannot be with operators behind it. -/
theorem malformed_of_operators {row : List Term} {ops : List Operator} (full : ops ≠ [])
    (joins : ∀ op ∈ ops, op.joins = true)
    (read : row = [] ∨ ∃ steps, readSteps row = .ok steps) :
    ∃ reason, readSteps (row ++ ops.map .operator) = .error (.malformed reason) := by
  have alone (ops : List Operator) :
      ∃ reason, readSteps (ops.map .operator) = .error (.malformed reason) := by
    obtain ⟨reason, failed⟩ := readOperand_operators ops
    exact ⟨reason, readSteps_of_error failed⟩
  induction length : row.length using Nat.strongRecOn generalizing row with
  | ind n ih =>
    subst length
    rcases read with rfl | ⟨steps, read⟩
    · exact alone ops
    cases first : readOperand row with
    | error reason =>
      rw [readSteps_of_error first] at read
      exact absurd read (by simp)
    | ok found =>
      obtain ⟨value, rest⟩ := found
      have longer := readOperand_append (ops.map .operator) first
      rcases rest with _ | ⟨t, rest⟩
      · cases ops with
        | nil => exact absurd rfl full
        | cons op ops =>
          obtain ⟨binary, rest, second⟩ := readOperator_operators ops (joins op (by simp))
          obtain ⟨reason, failed⟩ := alone rest
          rw [List.nil_append, List.map_cons] at longer
          rw [List.map_cons, readSteps_of_operator longer, second]
          exact ⟨reason, by simp [bind, Except.bind, failed, Except.map]⟩
      cases t with
      | value next =>
        rw [readSteps_of_value first] at read
        exact absurd read (by simp)
      | operator op =>
        rw [readSteps_of_operator first] at read
        cases second : readOperator op rest with
        | error reason => simp [second, bind, Except.bind] at read
        | ok found =>
          obtain ⟨binary, behind⟩ := found
          cases third : readSteps behind with
          | error reason => simp [second, third, bind, Except.bind, Except.map] at read
          | ok more =>
            have shorter := length_of_readOperand first
            have fewer := length_of_readOperator second
            have left : rest ≠ [] := by
              rintro rfl
              obtain rfl : behind = [] := List.length_eq_zero_iff.mp (by simpa using fewer)
              obtain ⟨reason, failed⟩ := alone []
              rw [List.map_nil, third] at failed
              exact absurd failed (by simp)
            obtain ⟨reason, failed⟩ := ih behind.length
              (by simp only [List.length_cons] at shorter; omega) (.inr ⟨more, third⟩) rfl
            rw [List.cons_append] at longer
            rw [readSteps_of_operator longer, readOperator_append left second]
            exact ⟨reason, by simp [bind, Except.bind, failed, Except.map]⟩

/-- A row with operators at its end has no value. -/
theorem no_value_of_operators {row : List Term} {ops : List Operator} (full : ops ≠ [])
    (value : Value) : reduceFlat (row ++ ops.map .operator) ≠ .ok value := by
  intro reduced
  have scanned := scanRow_of_reduceFlat reduced
  rcases List.eq_nil_or_concat ops with rfl | ⟨front, op, rfl⟩
  · exact full rfl
  · have last : row ++ (front.concat op).map Term.operator =
        (row ++ front.map .operator) ++ [.operator op] := by
      simp
    rw [last] at scanned
    obtain ⟨previous, -, step⟩ := scanRow_of_join scanned
    have waits := isOperator_of_after? (next?_operator step).2
    exact absurd waits (by simp [Previous.isOperator])

/-- It is not even well formed if it is without the operators. -/
theorem malformed_reduceFlat {row : List Term} {ops : List Operator} (full : ops ≠ [])
    (joins : ∀ op ∈ ops, op.joins = true)
    (evaluated : row = [] ∨ ∃ value, reduceFlat row = .ok value) :
    ∃ reason, reduceFlat (row ++ ops.map .operator) = .error (.malformed reason) := by
  have read : row = [] ∨ ∃ steps, readSteps row = .ok steps :=
    evaluated.imp id fun ⟨_, reduced⟩ => readSteps_of_reduceFlat reduced
  obtain ⟨reason, failed⟩ := malformed_of_operators full joins read
  have filled : (row ++ ops.map Term.operator).isEmpty = false := by simp [full]
  refine ⟨reason, ?_⟩
  rw [reduceFlat, filled]
  simp [failed, bind, Except.bind]

end RecordFormula
