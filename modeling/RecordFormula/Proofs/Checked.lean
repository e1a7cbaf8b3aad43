import RecordFormula.Proofs.Arguments
import RecordFormula.Proofs.Rows
import RecordFormula.Proofs.TwoRuns

/-!
# Checked lists

The check of the structure scans a list from the left with the parentheses that are open; the
evaluation works out the innermost parentheses first, on rows of terms. Where the check finds nothing,
each row that the evaluation comes to is one that can be read.

Results:
1. `onlyFails_reduceFrom`: the terms of a sound list fail for their values only.
2. `notMalformed_resolve`: a sound list becomes terms unless a call or a name in it fails.
3. `notMalformed_evaluateLevel`: a well-formed list has a value unless a call, a name or an operation in
   it fails.
-/

namespace RecordFormula

open CallsLemmas CleanScanLemmas NestingLemmas ResolveLemmas RowsLemmas

/-- Any failure but that of a list that is not well formed. -/
abbrev NotMalformed {α : Type} (x : Except EvalError α) : Prop :=
  OnlyFails (fun reason => reason.isMalformed = false) x

namespace CheckedLemmas

variable {frames : List Frame} {previous : Previous} {before : Option Token} {t : Token}
  {ts : List Token} {eval : Evaluator} {ctx : Context} {terms : List Term}

theorem exists_of_resolve_plain (plain : startsCall (t :: ts) = false)
    (resolved : resolve eval ctx (t :: ts) = .ok terms) :
    ∃ term more, termOf ctx t = .ok term ∧ resolve eval ctx ts = .ok more ∧ terms = term :: more := by
  rw [resolve_of_plain plain] at resolved
  obtain ⟨term, found, resolved⟩ := exists_of_bind_eq_ok resolved
  obtain ⟨more, rest, resolved⟩ := exists_of_bind_eq_ok resolved
  exact ⟨term, more, found, rest, (Except.ok.inj resolved).symm⟩

theorem exists_of_resolve_call (starts : startsCall (t :: ts) = true)
    (resolved : resolve eval ctx (t :: ts) = .ok terms) :
    ∃ call value more, Call.read (t :: ts) = .ok call ∧ evaluateCall eval call ctx = .ok value ∧
      resolve eval ctx call.rest = .ok more ∧ terms = .value value :: more := by
  cases found : Call.read (t :: ts) with
  | error reason =>
    rw [resolve_of_unread starts found] at resolved
    exact absurd resolved (by simp)
  | ok call =>
    rw [resolve_of_call starts found] at resolved
    obtain ⟨value, called, resolved⟩ := exists_of_bind_eq_ok resolved
    obtain ⟨more, rest, resolved⟩ := exists_of_bind_eq_ok resolved
    exact ⟨call, value, more, rfl, called, rest, (Except.ok.inj resolved).symm⟩

theorem exists_value_of_termOf {term : Term} (operand : t.isOperand = true)
    (found : termOf ctx t = .ok term) : ∃ value, term = .value value := by
  cases t with
  | number x => exact ⟨_, (Except.ok.inj found).symm⟩
  | text s => exact ⟨_, (Except.ok.inj found).symm⟩
  | field name =>
    rw [termOf] at found
    split at found
    · exact absurd found (by simp)
    · obtain ⟨value, -, found⟩ := exists_of_bind_eq_ok found
      exact ⟨value, (Except.ok.inj found).symm⟩
  | _ => simp [Token.isOperand] at operand

theorem plain_value (value : Value) : Plain (.value value) := ⟨by simp, by simp⟩

theorem plain_of_joins {op : Operator} (joins : op.joins = true) : Plain (.operator op) := by
  constructor
  · rintro ⟨⟩
    simp [Operator.joins] at joins
  · rintro ⟨⟩
    simp [Operator.joins] at joins

theorem apart_of_plain (plain : startsCall (t :: ts) = false) (name : Token)
    (same : some t = some name) : startsCall (name :: ts) = false := by
  obtain rfl := Option.some.inj same
  exact plain

theorem scanRow_join {row : List Term} {term : Term} {next : Previous}
    (scanned : scanRow .start row = some previous) (step : previous.next? term = some next) :
    scanRow .start (row ++ [term]) = some next := by
  rw [scanRow_append, scanned, Option.bind_some, scanRow, step]
  rfl

theorem scanRow_joinValue {row : List Term} (value : Value)
    (scanned : scanRow .start row = some previous) (free : previous ≠ .operand) :
    scanRow .start (row ++ [.value value]) = some .operand :=
  scanRow_join scanned (if_neg free)

end CheckedLemmas

open CheckedLemmas

/-! ## Steps outside calls -/

/-- What a sound list goes on with outside calls, at a token that starts none: the depth of the groups
and what the scan expects behind the token. -/
inductive GroupStep (depth : Nat) (previous : Previous) :
    Token → List Token → Nat → Previous → Prop
  | opens {ts : List Token} :
      previous ≠ .operand → ts ≠ [] → ts.head? ≠ some (.operator .rightParen) →
      GroupStep depth previous (.operator .leftParen) ts (depth + 1) .start
  | closes {ts : List Token} {outside : Nat} :
      depth = outside + 1 → previous.isOperator = false →
      GroupStep depth previous (.operator .rightParen) ts outside .operand
  | operator {op : Operator} {ts : List Token} {next : Previous} :
      op.joins = true → previous.after? op = some next →
      GroupStep depth previous (.operator op) ts depth next
  | operand {t : Token} {ts : List Token} :
      t.isOperand = true → previous ≠ .operand → GroupStep depth previous t ts depth .operand

/-- Outside calls there is neither a comma nor a `WHERE`, and a parenthesis behind no name opens a
group. -/
theorem Sound.groupStep {depth : Nat} {previous : Previous} {before : Option Token} {t : Token}
    {ts : List Token} (sound : Sound (List.replicate depth .group) previous before (t :: ts))
    (apart : ∀ name, before = some name → startsCall (name :: t :: ts) = false)
    (plain : startsCall (t :: ts) = false) :
    ∃ inside next, GroupStep depth previous t ts inside next ∧
      Sound (List.replicate inside .group) next (some t) ts := by
  have noCall : (List.replicate depth Frame.group).head?.any Frame.isCall = false := by
    cases depth <;> rfl
  have calls : ∀ call ∈ callsIn ts, callErrors call = [] := fun call mem =>
    sound.calls call (callsIn_subset_of_suffix (List.suffix_cons _ _) mem)
  obtain ⟨closed, -, clean⟩ := sound
  rw [List.length_replicate] at closed
  cases clean with
  | clause keyword inCall behind =>
    rw [noCall] at inCall
    exact absurd inCall (by simp)
  | openCall call behind =>
    cases before with
    | none => simp [Frame.ofToken, Frame.isCall] at call
    | some name =>
      have isName : name.isCallName = true := by
        cases named : name.isCallName with
        | true => rfl
        | false => simp [Frame.ofToken, named, Frame.isCall] at call
      have opened := apart name rfl
      rw [startsCall_iff.mpr ⟨isName, ts, rfl⟩] at opened
      exact absurd opened (by simp)
  | openGroup group free filled behind =>
    have tail : isClosed Token.never (depth + 1) ts = true := closed
    refine ⟨depth + 1, .start, .opens free (ne_nil_of_isClosed_succ tail) ?_, ?_, calls, behind⟩
    · intro closes
      simp [closes, Token.operator?] at filled
    · rwa [List.length_replicate]
  | close settled behind =>
    obtain ⟨outside, rfl, tail⟩ := isClosed_rightParen.mp closed
    exact ⟨outside, .operand, .closes rfl settled, by rwa [List.length_replicate], calls, behind⟩
  | comma inCall settled behind =>
    rw [noCall] at inCall
    exact absurd inCall (by simp)
  | operator joins step behind =>
    have tail := ((isClosed_cons (isParen_of_joins joins)).mp closed).2
    exact ⟨depth, _, .operator joins step, by rwa [List.length_replicate], calls, behind⟩
  | wildcard call opened ends behind =>
    rw [call] at noCall
    exact absurd noCall (by simp [Frame.isCall])
  | function free called behind =>
    rw [called] at plain
    exact absurd plain (by simp)
  | operand isOperand free behind =>
    have tail := ((isClosed_cons (isParen_of_isOperand isOperand)).mp closed).2
    exact ⟨depth, .operand, .operand isOperand free, by rwa [List.length_replicate], calls, behind⟩

/-! ## Values -/

/-- The rows in which parentheses are open wait for an operand. -/
def Waiting (outer : List (List Term)) : Prop :=
  ∀ row ∈ outer, ∃ previous, previous ≠ .operand ∧ scanRow .start row = some previous

/-- Where a scan and an evaluation of a list have come to: the row that came last has taken a scan of
terms to where the scan of the tokens is. -/
structure Position (outer : List (List Term)) (row : List Term) (previous : Previous)
    (before : Option Token) (ts : List Token) : Prop where
  sound : Sound (List.replicate outer.length .group) previous before ts
  scanned : scanRow .start row = some previous
  waiting : Waiting outer
  /-- A parenthesis that opens next opens a group. -/
  apart : ∀ name, before = some name → startsCall (name :: ts) = false
  begun : previous = .start → ts ≠ [] ∧ ts.head? ≠ some (.operator .rightParen)

/-- Where no operator waits at an end, an operand has come. -/
theorem Position.ended {outer : List (List Term)} {row : List Term} {previous : Previous}
    {before : Option Token} {ts : List Token} (position : Position outer row previous before ts)
    (settled : previous.isOperator = false)
    (ends : ts = [] ∨ ts.head? = some (.operator .rightParen)) :
    scanRow .start row = some .operand := by
  have scanned := position.scanned
  cases previous with
  | operand => exact scanned
  | start =>
    obtain ⟨full, filled⟩ := position.begun rfl
    rcases ends with empty | closes
    · exact absurd empty full
    · exact absurd closes filled
  | operator op paired => simp [Previous.isOperator] at settled

/-- What is left of a sound list outside calls is worked out without structural failures. -/
theorem onlyFails_reduceFrom {eval : Evaluator} {ctx : Context} {outer : List (List Term)}
    {row terms : List Term} {previous : Previous} {before : Option Token} {ts : List Token}
    (position : Position outer row previous before ts)
    (resolved : resolve eval ctx ts = .ok terms) :
    OnlyFailsOfValues (reduceFrom outer row terms) := by
  -- On the length of the list: behind a call it goes on where the call has ended.
  induction length : ts.length using Nat.strongRecOn
    generalizing outer row terms previous before ts with
  | ind n ih =>
    subst length
    have ended := position.ended
    obtain ⟨sound, scanned, waiting, apart, begun⟩ := position
    cases ts with
    | nil =>
      have noneOpen : outer = [] := by
        rw [← List.length_eq_zero_iff]
        simpa [isClosed_nil] using sound.closed
      subst noneOpen
      rw [resolve] at resolved
      obtain rfl := Except.ok.inj resolved
      cases sound.clean with
      | done settled => exact onlyFails_reduceFlat (ended settled (.inl rfl))
    | cons t ts =>
      cases starts : startsCall (t :: ts) with
      | true =>
        obtain ⟨call, value, more, found, -, rest, rfl⟩ := exists_of_resolve_call starts resolved
        obtain ⟨free, behind⟩ := sound.rest_of_call starts found
        rw [reduceFrom_cons (plain_value value)]
        refine ih _ (Call.rest_lt found) ⟨behind, ?_, waiting, ?_, ?_⟩ rest rfl
        · exact scanRow_joinValue value scanned free
        · exact apart_of_plain startsCall_operator
        · exact fun impossible => absurd impossible (by simp)
      | false =>
        obtain ⟨term, more, isTerm, rest, rfl⟩ := exists_of_resolve_plain starts resolved
        obtain ⟨inside, next, step, sound⟩ := sound.groupStep apart starts
        have shorter : ts.length < (t :: ts).length := by simp
        have nextApart := apart_of_plain starts
        cases step with
        | opens free full filled =>
          obtain rfl := Except.ok.inj isTerm
          rw [reduceFrom_leftParen]
          refine ih _ shorter ⟨sound, rfl, ?_, nextApart, fun _ => ⟨full, filled⟩⟩ rest rfl
          intro row mem
          rcases List.mem_cons.mp mem with rfl | mem
          · exact ⟨previous, free, scanned⟩
          · exact waiting row mem
        | closes opened settled =>
          cases outer with
          | nil => exact absurd opened (by simp)
          | cons last outer =>
            obtain rfl : outer.length = inside := by simpa using opened
            have scanned := ended settled (.inr rfl)
            have full : row ≠ [] := by
              rintro rfl
              simp [scanRow] at scanned
            obtain rfl := Except.ok.inj isTerm
            obtain ⟨waits, free, scannedLast⟩ := waiting last List.mem_cons_self
            rw [reduceFrom_rightParen full]
            refine (onlyFails_reduceFlat scanned).bind fun value _ => ?_
            refine ih _ shorter ⟨sound, ?_, ?_, nextApart, ?_⟩ rest rfl
            · exact scanRow_joinValue value scannedLast free
            · exact fun row mem => waiting row (List.mem_cons_of_mem _ mem)
            · exact fun impossible => absurd impossible (by simp)
        | operator joins step =>
          obtain rfl := Except.ok.inj isTerm
          rw [reduceFrom_cons (plain_of_joins joins)]
          refine ih _ shorter ⟨sound, ?_, waiting, nextApart, ?_⟩ rest rfl
          · exact scanRow_join scanned ((if_pos joins).trans step)
          · rintro rfl
            exact absurd (isOperator_of_after? step) (by simp [Previous.isOperator])
        | operand isOperand free =>
          obtain ⟨value, rfl⟩ := exists_value_of_termOf isOperand isTerm
          rw [reduceFrom_cons (plain_value value)]
          refine ih _ shorter ⟨sound, ?_, waiting, nextApart, ?_⟩ rest rfl
          · exact scanRow_joinValue value scanned free
          · exact fun impossible => absurd impossible (by simp)

/-! ## Terms -/

namespace CheckedLemmas

theorem notMalformed_termOf {depth inside : Nat} {next : Previous}
    (step : GroupStep depth previous t ts inside next) : NotMalformed (termOf ctx t) := by
  cases step with
  | operand isOperand _ =>
    cases t with
    | field name =>
      have free : isReserved name = false := by simpa [Token.isOperand] using isOperand
      rw [termOf, free]
      have value : NotMalformed (ctx.fieldValue name) :=
        onlyFails_fieldValue (fun _ _ => rfl) fun _ => rfl
      exact value.bind fun _ _ => .ok _
    | function name => simp [Token.isOperand] at isOperand
    | _ => exact .ok _
  | _ => exact .ok _

end CheckedLemmas

/-- A sound list becomes terms unless one of its calls or names fails. -/
theorem notMalformed_resolve {eval : Evaluator} {ctx : Context} {depth : Nat} {previous : Previous}
    {before : Option Token} {ts : List Token}
    (sound : Sound (List.replicate depth .group) previous before ts)
    (apart : ∀ name, before = some name → startsCall (name :: ts) = false)
    (succeed : ∀ frames previous before t ts' call, t :: ts' <:+ ts →
      Sound frames previous before (t :: ts') → startsCall (t :: ts') = true →
      Call.read (t :: ts') = .ok call → NotMalformed (evaluateCall eval call ctx)) :
    NotMalformed (resolve eval ctx ts) := by
  induction ts using resolve_induction generalizing depth previous before with
  | nil =>
    rw [resolve]
    exact .ok _
  | unread t ts reason starts failed =>
    obtain ⟨call, found, -⟩ := exists_call starts sound.closed
    exact absurd (failed.symm.trans found) (by simp)
  | call t ts call starts found ih =>
    rw [resolve_of_call starts found]
    refine (succeed _ _ _ t ts call (List.suffix_refl _) sound starts found).bind fun _ _ => ?_
    have rest : NotMalformed (resolve eval ctx call.rest) :=
      ih (sound.rest_of_call starts found).2 (apart_of_plain startsCall_operator)
        fun _ _ _ _ _ _ suffix => succeed _ _ _ _ _ _ (suffix.trans (rest_suffix starts found))
    exact rest.bind fun _ _ => .ok _
  | plain t ts plain ih =>
    obtain ⟨inside, next, step, behind⟩ := sound.groupStep apart plain
    rw [resolve_of_plain plain]
    refine (notMalformed_termOf step).bind fun _ _ => ?_
    have rest : NotMalformed (resolve eval ctx ts) :=
      ih behind (apart_of_plain plain)
        fun _ _ _ _ _ _ suffix => succeed _ _ _ _ _ _ (suffix.trans (List.suffix_cons t ts))
    exact rest.bind fun _ _ => .ok _

/-- A level of evaluation finds nothing wrong with the structure of a well-formed list if its calls do
not. -/
theorem notMalformed_evaluateLevel {eval : Evaluator} {ctx : Context} {ts : List Token}
    (wellFormed : structuralErrors ts = [])
    (succeed : ∀ frames previous before t ts' call, t :: ts' <:+ ts →
      Sound frames previous before (t :: ts') → startsCall (t :: ts') = true →
      Call.read (t :: ts') = .ok call → NotMalformed (evaluateCall eval call ctx)) :
    NotMalformed (evaluateLevel eval ts ctx) := by
  obtain ⟨full, sound⟩ := structuralErrors_eq_nil_iff.mp wellFormed
  have position : Position [] [] .start none ts := by
    refine ⟨sound, rfl, fun _ mem => absurd mem List.not_mem_nil, fun _ impossible =>
      absurd impossible (by simp), fun _ => ⟨full, fun closes => ?_⟩⟩
    obtain ⟨rest, rfl⟩ := List.head?_eq_some_iff.mp closes
    obtain ⟨_, opened, -⟩ := isClosed_rightParen.mp sound.closed
    exact absurd opened (by simp)
  refine (notMalformed_resolve position.sound position.apart succeed).bind fun terms resolved => ?_
  exact (onlyFails_reduceFrom position resolved).mono fun _ =>
    EvalError.not_isMalformed_of_isOfValues

end RecordFormula
