import RecordFormula.Proofs.Checked

/-!
# Lists without calls

Outside calls the check of the structure and the evaluation accept the same token lists. That what has
a value passes the check is shown from the end of a list to its beginning: only the rows that the
evaluation comes to at last tell that the rows before were fine.

Result: `evaluate_of_callFree`: the check finds nothing wrong with a list without calls exactly if its
evaluation does not.
-/

namespace RecordFormula

open CallsLemmas CheckedLemmas CleanScanLemmas NestingLemmas ResolveLemmas RowsLemmas

/-- A list in which no call starts. -/
def CallFree (ts : List Token) : Prop := ∀ index, isCallStart ts index = false

namespace CallFree

variable {t : Token} {ts : List Token}

theorem head (callFree : CallFree (t :: ts)) : startsCall (t :: ts) = false := callFree 0

theorem tail (callFree : CallFree (t :: ts)) : CallFree ts := fun index => callFree (index + 1)

theorem suffix {whole : List Token} (callFree : CallFree whole) (suffix : ts <:+ whole) :
    startsCall ts = false := by
  obtain ⟨front, rfl⟩ := suffix
  have starts := callFree front.length
  rwa [isCallStart, List.drop_left] at starts

theorem callsIn_eq_nil (callFree : CallFree ts) : callsIn ts = [] := by
  induction ts with
  | nil => rfl
  | cons t ts ih =>
    rw [callsIn, callFree.head, ih callFree.tail]
    rfl

end CallFree

namespace CallFreeLemmas

variable {ctx : Context} {t : Token} {term : Term}

theorem termOf_cases (found : termOf ctx t = .ok term) :
    (∃ op, t = .operator op ∧ term = .operator op) ∨
      (t.isOperand = true ∧ ∃ value, term = .value value) := by
  cases t with
  | operator op => exact .inl ⟨op, rfl, (Except.ok.inj found).symm⟩
  | function name => exact absurd found (by simp [termOf])
  | field name =>
    cases reserved : isReserved name with
    | true => exact absurd found (by simp [termOf, reserved])
    | false =>
      have operand : (Token.field name).isOperand = true := by rw [Token.isOperand, reserved]; rfl
      exact .inr ⟨operand, exists_value_of_termOf operand found⟩
  | _ => exact .inr ⟨rfl, exists_value_of_termOf rfl found⟩

theorem head?_of_reduceFrom {eval : Evaluator} {ts : List Token} {terms : List Term}
    (resolved : resolve eval ctx ts = .ok terms)
    (filled : ∀ behind, terms ≠ .operator .rightParen :: behind) :
    ts.head?.any (·.operator? == some .rightParen) = false := by
  cases ts with
  | nil => rfl
  | cons t ts =>
    cases t with
    | operator op =>
      obtain ⟨term, more, isTerm, -, rfl⟩ := exists_of_resolve_plain startsCall_operator resolved
      obtain rfl := Except.ok.inj isTerm
      cases op with
      | rightParen => exact absurd rfl (filled more)
      | _ => rfl
    | _ => rfl

end CallFreeLemmas

open CallFreeLemmas

/-- What has a value has been scanned without errors, from the row that came last on, and the rows in
which parentheses were opened wait for an operand. -/
theorem clean_of_reduceFrom {eval : Evaluator} {ctx : Context} {outer : List (List Term)}
    {row terms : List Term} {ts : List Token} {value : Value} (callFree : CallFree ts)
    (resolved : resolve eval ctx ts = .ok terms)
    (reduced : reduceFrom outer row terms = .ok value) :
    isClosed Token.never outer.length ts = true ∧ Waiting outer ∧
      ∃ previous, scanRow .start row = some previous ∧
        ∀ before, (∀ name, before = some name → startsCall (name :: ts) = false) →
          Clean (List.replicate outer.length .group) previous before ts := by
  -- What the row has scanned to is known at the end of the list only, and is handed back from there.
  induction ts generalizing outer row terms with
  | nil =>
    rw [resolve] at resolved
    obtain rfl := Except.ok.inj resolved
    cases outer with
    | cons last outer => exact absurd reduced (by simp [reduceFrom])
    | nil =>
      have flat : reduceFlat row = .ok value := reduced
      exact ⟨rfl, fun _ mem => absurd mem List.not_mem_nil, .operand, scanRow_of_reduceFlat flat,
        fun _ _ => .done rfl⟩
  | cons t ts ih =>
    obtain ⟨term, more, isTerm, rest, rfl⟩ := exists_of_resolve_plain callFree.head resolved
    have apart := apart_of_plain callFree.head
    rcases termOf_cases isTerm with ⟨op, rfl, rfl⟩ | ⟨operand, v, rfl⟩
    · rcases term_cases (.operator op) with same | same | plain
      · obtain rfl := Term.operator.inj same
        rw [reduceFrom_leftParen] at reduced
        obtain ⟨closed, waiting, previous, scanned, clean⟩ := ih callFree.tail rest reduced
        obtain rfl : .start = previous := Option.some.inj scanned
        obtain ⟨waits, free, scannedRow⟩ := waiting row List.mem_cons_self
        have filled : ts.head?.any (·.operator? == some .rightParen) = false := by
          refine head?_of_reduceFrom rest fun behind same => ?_
          rw [same, reduceFrom_rightParen_nil] at reduced
          exact absurd reduced (by simp)
        refine ⟨closed, fun row mem => waiting row (List.mem_cons_of_mem _ mem), waits, scannedRow,
          fun before outside => .openGroup ?_ free filled (clean _ apart)⟩
        cases before with
        | none => rfl
        | some name =>
          have noName : name.isCallName = false := outside name rfl
          simp [Frame.ofToken, noName]
      · obtain rfl := Term.operator.inj same
        cases outer with
        | nil => exact absurd reduced (by simp [reduceFrom_unopened])
        | cons last outer =>
          have full : row ≠ [] := by
            rintro rfl
            exact absurd reduced (by simp [reduceFrom_rightParen_nil])
          rw [reduceFrom_rightParen full] at reduced
          obtain ⟨v, flat, reduced⟩ := exists_of_bind_eq_ok reduced
          obtain ⟨closed, waiting, next, scanned, clean⟩ := ih callFree.tail rest reduced
          obtain ⟨waits, scannedLast, step⟩ := scanRow_of_join scanned
          obtain ⟨free, rfl⟩ := next?_value step
          refine ⟨isClosed_rightParen.mpr ⟨outer.length, rfl, closed⟩, fun row mem => ?_, .operand,
            scanRow_of_reduceFlat flat, fun before _ => .close rfl (clean _ apart)⟩
          rcases List.mem_cons.mp mem with rfl | mem
          · exact ⟨waits, free, scannedLast⟩
          · exact waiting row mem
      · rw [reduceFrom_cons plain] at reduced
        obtain ⟨closed, waiting, next, scanned, clean⟩ := ih callFree.tail rest reduced
        obtain ⟨previous, scannedRow, step⟩ := scanRow_of_join scanned
        obtain ⟨joins, step⟩ := next?_operator step
        exact ⟨(isClosed_cons (isParen_of_joins joins)).mpr ⟨fun _ => rfl, closed⟩, waiting, previous,
          scannedRow, fun before _ => .operator joins step (clean _ apart)⟩
    · rw [reduceFrom_cons (plain_value v)] at reduced
      obtain ⟨closed, waiting, next, scanned, clean⟩ := ih callFree.tail rest reduced
      obtain ⟨previous, scannedRow, step⟩ := scanRow_of_join scanned
      obtain ⟨free, rfl⟩ := next?_value step
      exact ⟨(isClosed_cons (isParen_of_isOperand operand)).mpr ⟨fun _ => rfl, closed⟩, waiting,
        previous, scannedRow, fun before _ => .operand operand free (clean _ apart)⟩

/-- A list without calls that has a value is well formed. -/
theorem wellFormed_of_evaluate {ts : List Token} {ctx : Context} {value : Value}
    (callFree : CallFree ts) (evaluated : evaluate ts ctx = .ok value) : structuralErrors ts = [] := by
  rw [evaluate_eq] at evaluated
  obtain ⟨terms, resolved, reduced⟩ := exists_of_bind_eq_ok evaluated
  obtain ⟨closed, -, previous, scanned, clean⟩ := clean_of_reduceFrom callFree resolved reduced
  obtain rfl : .start = previous := Option.some.inj scanned
  refine structuralErrors_eq_nil_iff.mpr ⟨?_, closed, ?_, ?_⟩
  · rintro rfl
    rw [resolve] at resolved
    obtain rfl := Except.ok.inj resolved
    exact absurd reduced (by simp [reduce, reduceFrom, reduceFlat])
  · rw [callFree.callsIn_eq_nil]
    exact fun _ mem => absurd mem List.not_mem_nil
  · exact clean none fun _ impossible => absurd impossible (by simp)

/-- On lists without calls the check of the structure and the evaluation agree: what passes the check
never fails for its structure, whatever the context, and what does not pass never has a value. -/
theorem evaluate_of_callFree {ts : List Token} (callFree : ∀ index, isCallStart ts index = false) :
    (structuralErrors ts = [] → ∀ ctx reason, evaluate ts ctx ≠ .error (.malformed reason)) ∧
      (structuralErrors ts ≠ [] → ∀ ctx, ∃ reason, evaluate ts ctx = .error reason) := by
  constructor
  · intro wellFormed ctx reason failed
    rw [evaluate_eq] at failed
    refine absurd (notMalformed_evaluateLevel wellFormed ?_ _ failed) (by simp [EvalError.isMalformed])
    intro frames previous before t ts' call suffix sound starts
    rw [CallFree.suffix callFree suffix] at starts
    exact absurd starts (by simp)
  · intro errors ctx
    cases evaluated : evaluate ts ctx with
    | error reason => exact ⟨reason, rfl⟩
    | ok value => exact absurd (wellFormed_of_evaluate callFree evaluated) errors

/-- A sum without its right side starts no call. It does not pass the check and never has a value. -/
theorem unfinishedSum_has_no_value :
    (∀ index, isCallStart [.field "amount", .operator .plus] index = false) ∧
      structuralErrors [.field "amount", .operator .plus] = [.incomplete (.lastOperandAfter .plus)] ∧
      ∀ ctx, ∃ reason, evaluate [.field "amount", .operator .plus] ctx = .error reason := by
  have callFree : ∀ index, isCallStart [.field "amount", .operator .plus] index = false := by
    intro index
    rcases index with _ | _ | index
    · rfl
    · rfl
    · show startsCall (List.drop index []) = false
      rw [List.drop_nil]
      rfl
  have errors : structuralErrors [.field "amount", .operator .plus] =
      [.incomplete (.lastOperandAfter .plus)] := by
    with_unfolding_all rfl
  refine ⟨callFree, errors, (evaluate_of_callFree callFree).2 ?_⟩
  rw [errors]
  exact List.cons_ne_nil _ _

end RecordFormula
