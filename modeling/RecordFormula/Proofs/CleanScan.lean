import Mathlib.Data.List.Basic
import RecordFormula.Proofs.Nesting

/-!
# Scans without errors

`sequenceErrors` lists what is wrong with a sequence of tokens. `Clean` says, with one rule for each
kind of step, when the list is empty.

Results:
1. `sequenceErrors_eq_nil_iff`: the list is empty exactly for clean sequences.
2. `Clean.exists_exit`: a closed list inside a clean sequence is left again where it was entered, and
   such a list is clean by itself, unless it is the `*` of a call of `COUNT`.
-/

namespace RecordFormula

open NestingLemmas

/-- Whether an operator stands between operands or in front of one. -/
def Operator.joins : Operator → Bool
  | .leftParen | .rightParen | .comma | .dot => false
  | _ => true

/-- Whether a token is an operand by itself. -/
def Token.isOperand : Token → Bool
  | .number _ | .text _ => true
  | .field name => !isReserved name
  | _ => false

namespace Previous

/-- Whether an operator waits for its right side. -/
def isOperator : Previous → Bool
  | .operator _ _ => true
  | _ => false

/-- What an operator leaves a scan expecting, if it may stand there: between operands, as a sign, or
as the second half of a comparison. -/
def after? (op : Operator) : Previous → Option Previous
  | .operand => some (.operator op false)
  | .start => if op.isSign then some (.operator op false) else none
  | .operator first paired =>
    if (Comparator.ofPair? first op).isSome && !paired then some (.operator op true)
    else if op.isSign then some (.operator op false) else none

end Previous

/-- A scan that finds no error. -/
inductive Clean : List Frame → Previous → Option Token → List Token → Prop
  | done {frames : List Frame} {previous : Previous} {before : Option Token} :
      previous.isOperator = false → Clean frames previous before []
  /-- A condition is skipped. Whether an operator waits is not looked at. -/
  | clause {frames : List Frame} {previous : Previous} {before : Option Token} {t : Token}
      {ts : List Token} :
      t.isWhere = true → frames.head?.any Frame.isCall = true →
      Clean frames .operand none (argumentEnd 0 ts) → Clean frames previous before (t :: ts)
  | openCall {frames : List Frame} {previous : Previous} {before : Option Token}
      {ts : List Token} :
      (Frame.ofToken before).isCall = true →
      Clean (Frame.ofToken before :: frames) .start (some (.operator .leftParen)) ts →
      Clean frames previous before (.operator .leftParen :: ts)
  | openGroup {frames : List Frame} {previous : Previous} {before : Option Token}
      {ts : List Token} :
      Frame.ofToken before = .group → previous ≠ .operand →
      ts.head?.any (·.operator? == some .rightParen) = false →
      Clean (.group :: frames) .start (some (.operator .leftParen)) ts →
      Clean frames previous before (.operator .leftParen :: ts)
  | close {frames : List Frame} {previous : Previous} {before : Option Token} {ts : List Token} :
      previous.isOperator = false →
      Clean frames.tail .operand (some (.operator .rightParen)) ts →
      Clean frames previous before (.operator .rightParen :: ts)
  | comma {frames : List Frame} {previous : Previous} {before : Option Token} {ts : List Token} :
      frames.head?.any Frame.isCall = true → previous.isOperator = false →
      Clean frames .start (some (.operator .comma)) ts →
      Clean frames previous before (.operator .comma :: ts)
  | operator {frames : List Frame} {previous next : Previous} {before : Option Token}
      {op : Operator} {ts : List Token} :
      op.joins = true → previous.after? op = some next →
      Clean frames next (some (.operator op)) ts → Clean frames previous before (.operator op :: ts)
  /-- The `*` of `COUNT(*)`. -/
  | wildcard {frames : List Frame} {before : Option Token} {ts : List Token} :
      frames.head? = some (.call true) → before = some (.operator .leftParen) →
      endsValue ts = true → Clean frames .operand (some (.operator .star)) ts →
      Clean frames .start before (.operator .star :: ts)
  | function {frames : List Frame} {previous : Previous} {before : Option Token} {name : String}
      {ts : List Token} :
      previous ≠ .operand → startsCall (.function name :: ts) = true →
      Clean frames .operand (some (.function name)) ts →
      Clean frames previous before (.function name :: ts)
  | operand {frames : List Frame} {previous : Previous} {before : Option Token} {t : Token}
      {ts : List Token} :
      t.isOperand = true → previous ≠ .operand → Clean frames .operand (some t) ts →
      Clean frames previous before (t :: ts)

/-! ## Errors and rules -/

namespace CleanScanLemmas

variable {frames : List Frame} {previous : Previous} {before : Option Token} {ts : List Token}

theorem danglingErrors_eq_nil_iff {closing : Operator} :
    danglingErrors previous closing = [] ↔ previous.isOperator = false := by
  cases previous <;> simp [danglingErrors, Previous.isOperator]

theorem operandErrors_eq_nil_iff {shown : String} :
    operandErrors previous shown = [] ↔ previous ≠ .operand := by
  simp [operandErrors]

theorem isOperand_of_field {name : String} :
    (Token.field name).isOperand = true ↔
      (Token.field name).isWhere = false ∧ (Token.field name).isAnd = false := by
  simp [Token.isOperand, Token.isWhere, Token.isAnd, Token.isKeyword, isReserved]

theorem isWhere_of_isOperand {t : Token} (operand : t.isOperand = true) : t.isWhere = false := by
  cases t with
  | field name => exact (isOperand_of_field.mp operand).1
  | _ => rfl

theorem sequenceErrors_nil :
    sequenceErrors frames previous before [] = [] ↔ previous.isOperator = false := by
  rw [sequenceErrors.eq_def]
  cases previous <;> simp [Previous.isOperator]

theorem sequenceErrors_clause {t : Token} (keyword : t.isWhere = true) :
    sequenceErrors frames previous before (t :: ts) =
      (if frames.head?.any Frame.isCall then [] else [.invalidCondition .outsideCall]) ++
        sequenceErrors frames .operand none (argumentEnd 0 ts) := by
  refine (sequenceErrors.eq_def ..).trans ?_
  simp only [keyword, if_true]

theorem sequenceErrors_leftParen :
    sequenceErrors frames previous before (.operator .leftParen :: ts) =
      (if (Frame.ofToken before).isCall then []
        else operandErrors previous Operator.leftParen.text ++
          if ts.head?.any (·.operator? == some .rightParen) then [.emptyGroup] else []) ++
        sequenceErrors (Frame.ofToken before :: frames) .start (some (.operator .leftParen)) ts := by
  refine (sequenceErrors.eq_def ..).trans ?_
  rfl

theorem sequenceErrors_rightParen :
    sequenceErrors frames previous before (.operator .rightParen :: ts) =
      danglingErrors previous .rightParen ++
        sequenceErrors frames.tail .operand (some (.operator .rightParen)) ts := by
  refine (sequenceErrors.eq_def ..).trans ?_
  rfl

theorem sequenceErrors_comma :
    sequenceErrors frames previous before (.operator .comma :: ts) =
      (if frames.head?.any Frame.isCall then [] else [.unexpectedToken Operator.comma.text]) ++
        danglingErrors previous .comma ++
        sequenceErrors frames .start (some (.operator .comma)) ts := by
  refine (sequenceErrors.eq_def ..).trans ?_
  rfl

theorem sequenceErrors_dot :
    sequenceErrors frames previous before (.operator .dot :: ts) =
      .unexpectedToken Operator.dot.text ::
        sequenceErrors frames previous (some (.operator .dot)) ts := by
  refine (sequenceErrors.eq_def ..).trans ?_
  rfl

theorem sequenceErrors_operator {op : Operator} (joins : op.joins = true) :
    sequenceErrors frames previous before (.operator op :: ts) =
      (operatorStep op previous frames.head? before ts).2 ++
        sequenceErrors frames (operatorStep op previous frames.head? before ts).1
          (some (.operator op)) ts := by
  refine (sequenceErrors.eq_def ..).trans ?_
  cases op with
  | leftParen | rightParen | comma | dot => simp [Operator.joins] at joins
  | _ => rfl

theorem sequenceErrors_function {name : String} :
    sequenceErrors frames previous before (.function name :: ts) =
      operandErrors previous name ++
        (if startsCall (.function name :: ts) then [] else [.incomplete (.arguments name)]) ++
        sequenceErrors frames .operand (some (.function name)) ts := by
  refine (sequenceErrors.eq_def ..).trans ?_
  rfl

theorem sequenceErrors_operand {t : Token} (operand : t.isOperand = true) :
    sequenceErrors frames previous before (t :: ts) =
      operandErrors previous t.display ++ sequenceErrors frames .operand (some t) ts := by
  refine (sequenceErrors.eq_def ..).trans ?_
  simp only [isWhere_of_isOperand operand, Bool.false_eq_true, if_false]
  cases t with
  | field name => simp [(isOperand_of_field.mp operand).2]
  | function name | operator op => simp [Token.isOperand] at operand
  | _ => rfl

theorem sequenceErrors_and {t : Token} (keyword : t.isAnd = true) (other : t.isWhere = false) :
    sequenceErrors frames previous before (t :: ts) =
      .unexpectedToken t.display :: sequenceErrors frames .operand (some t) ts := by
  refine (sequenceErrors.eq_def ..).trans ?_
  simp only [other, Bool.false_eq_true, if_false]
  cases t with
  | field name => simp [keyword]
  | _ => simp [Token.isAnd, Token.isKeyword] at keyword

theorem opened_iff :
    before.any (·.operator? == some .leftParen) = true ↔
      before = some (.operator .leftParen) := by
  cases before with
  | none => simp
  | some t => cases t <;> simp [Token.operator?]

/-- An operator is fine where it may stand, and the `*` of `COUNT(*)` is fine as an operand. -/
theorem operatorStep_eq_iff {op : Operator} {frame : Option Frame} {next : Previous} :
    operatorStep op previous frame before ts = (next, []) ↔
      previous.after? op = some next ∨
      (previous = .start ∧ op = .star ∧ frame = some (.call true) ∧
        before = some (.operator .leftParen) ∧ endsValue ts = true ∧ next = .operand) := by
  cases previous with
  | start =>
    by_cases wildcard : op = .star ∧ frame = some (.call true) ∧
        before = some (.operator .leftParen) ∧ endsValue ts = true
    · obtain ⟨rfl, rfl, rfl, ends⟩ := wildcard
      simp [operatorStep, Previous.after?, Operator.isSign, Token.operator?, ends, eq_comm]
    · have step : operatorStep op .start frame before ts =
          (.operator op false, if op.isSign then [] else [.incomplete (.firstOperand op)]) := by
        refine if_neg ?_
        rw [opened_iff]
        exact wildcard
      rw [step, Previous.after?]
      constructor
      · intro same
        cases sign : op.isSign with
        | true => exact .inl (by simpa [sign] using same)
        | false => simp [sign] at same
      · rintro (same | ⟨-, star, call, paren, ends, -⟩)
        · cases sign : op.isSign with
          | true => simpa [sign] using same
          | false => simp [sign] at same
        · exact absurd ⟨star, call, paren, ends⟩ wildcard
  | operand => simp [operatorStep, Previous.after?]
  | operator first paired =>
    simp only [operatorStep, Previous.after?]
    split
    · simp
    · cases op.isSign <;> simp

theorem clean_of_sequenceErrors {frames : List Frame} {previous : Previous}
    {before : Option Token} {ts : List Token}
    (empty : sequenceErrors frames previous before ts = []) : Clean frames previous before ts := by
  -- On the length of the list: behind a `WHERE` the scan goes on at the end of the argument.
  induction length : ts.length using Nat.strongRecOn generalizing frames previous before ts with
  | ind n ih =>
    subst length
    cases ts with
    | nil => exact .done (sequenceErrors_nil.mp empty)
    | cons t ts =>
      have shorter : ts.length < (t :: ts).length := by simp
      have skipped : (argumentEnd 0 ts).length < (t :: ts).length :=
        Nat.lt_of_le_of_lt (length_argumentEnd_le 0 ts) shorter
      by_cases keyword : t.isWhere = true
      · rw [sequenceErrors_clause keyword, List.append_eq_nil_iff] at empty
        obtain ⟨inCall, rest⟩ := empty
        exact .clause keyword (by simpa using inCall) (ih _ skipped rest rfl)
      · have other : t.isWhere = false := by simpa using keyword
        cases t with
        | number x =>
          rw [sequenceErrors_operand rfl, List.append_eq_nil_iff] at empty
          exact .operand rfl (operandErrors_eq_nil_iff.mp empty.1) (ih _ shorter empty.2 rfl)
        | text s =>
          rw [sequenceErrors_operand rfl, List.append_eq_nil_iff] at empty
          exact .operand rfl (operandErrors_eq_nil_iff.mp empty.1) (ih _ shorter empty.2 rfl)
        | field name =>
          cases joined : (Token.field name).isAnd with
          | true =>
            rw [sequenceErrors_and joined other] at empty
            exact absurd empty (by simp)
          | false =>
            have operand := isOperand_of_field.mpr ⟨other, joined⟩
            rw [sequenceErrors_operand operand, List.append_eq_nil_iff] at empty
            exact .operand operand (operandErrors_eq_nil_iff.mp empty.1)
              (ih _ shorter empty.2 rfl)
        | function name =>
          rw [sequenceErrors_function, List.append_eq_nil_iff, List.append_eq_nil_iff] at empty
          obtain ⟨⟨free, called⟩, rest⟩ := empty
          exact .function (operandErrors_eq_nil_iff.mp free) (by simpa using called)
            (ih _ shorter rest rfl)
        | operator op =>
          cases joins : op.joins with
          | true =>
            rw [sequenceErrors_operator joins, List.append_eq_nil_iff] at empty
            obtain ⟨fine, rest⟩ := empty
            have clean := ih _ shorter rest rfl
            have stepped : operatorStep op previous frames.head? before ts =
                ((operatorStep op previous frames.head? before ts).1, []) := Prod.ext rfl fine
            rcases operatorStep_eq_iff.mp stepped with
              step | ⟨rfl, rfl, call, opened, ends, step⟩
            · exact .operator joins step clean
            · rw [step] at clean
              exact .wildcard call opened ends clean
          | false =>
            cases op with
            | leftParen =>
              rw [sequenceErrors_leftParen, List.append_eq_nil_iff] at empty
              obtain ⟨opens, rest⟩ := empty
              have clean := ih _ shorter rest rfl
              cases kind : Frame.ofToken before with
              | call isCount => exact .openCall (by rw [kind]; rfl) clean
              | group =>
                rw [kind] at opens clean
                simp only [Frame.isCall, Bool.false_eq_true, if_false,
                  List.append_eq_nil_iff, operandErrors_eq_nil_iff] at opens
                exact .openGroup kind opens.1 (by simpa using opens.2) clean
            | rightParen =>
              rw [sequenceErrors_rightParen, List.append_eq_nil_iff] at empty
              exact .close (danglingErrors_eq_nil_iff.mp empty.1) (ih _ shorter empty.2 rfl)
            | comma =>
              rw [sequenceErrors_comma, List.append_eq_nil_iff, List.append_eq_nil_iff] at empty
              obtain ⟨⟨inCall, settled⟩, rest⟩ := empty
              exact .comma (by simpa using inCall) (danglingErrors_eq_nil_iff.mp settled)
                (ih _ shorter rest rfl)
            | dot =>
              rw [sequenceErrors_dot] at empty
              exact absurd empty (by simp)
            | _ => simp [Operator.joins] at joins

theorem sequenceErrors_of_clean {frames : List Frame} {previous : Previous}
    {before : Option Token} {ts : List Token} (clean : Clean frames previous before ts) :
    sequenceErrors frames previous before ts = [] := by
  induction clean with
  | done settled => exact sequenceErrors_nil.mpr settled
  | clause keyword inCall _ ih =>
    rw [sequenceErrors_clause keyword, ih]
    simp [inCall]
  | openCall call _ ih =>
    rw [sequenceErrors_leftParen, ih]
    simp [call]
  | openGroup group free full _ ih =>
    rw [sequenceErrors_leftParen, group, ih]
    simp [Frame.isCall, operandErrors_eq_nil_iff.mpr free, full]
  | close settled _ ih =>
    rw [sequenceErrors_rightParen, ih, danglingErrors_eq_nil_iff.mpr settled]
    rfl
  | comma inCall settled _ ih =>
    rw [sequenceErrors_comma, ih, danglingErrors_eq_nil_iff.mpr settled]
    simp [inCall]
  | operator joins step _ ih =>
    rw [sequenceErrors_operator joins, operatorStep_eq_iff.mpr (.inl step), ih]
    rfl
  | wildcard call opened ends _ ih =>
    rw [sequenceErrors_operator rfl,
      operatorStep_eq_iff.mpr (.inr ⟨rfl, rfl, call, opened, ends, rfl⟩), ih]
    rfl
  | function free called _ ih =>
    rw [sequenceErrors_function, ih, operandErrors_eq_nil_iff.mpr free]
    simp [called]
  | operand operand free _ ih =>
    rw [sequenceErrors_operand operand, ih, operandErrors_eq_nil_iff.mpr free]
    rfl

end CleanScanLemmas

open CleanScanLemmas

/-- A sequence has no errors exactly if its scan is clean. -/
theorem sequenceErrors_eq_nil_iff {frames : List Frame} {previous : Previous}
    {before : Option Token} {ts : List Token} :
    sequenceErrors frames previous before ts = [] ↔ Clean frames previous before ts :=
  ⟨clean_of_sequenceErrors, sequenceErrors_of_clean⟩

/-! ## Closed lists inside a clean sequence -/

/-- Whether a token is an operator that stands between operands or in front of one. -/
def Token.joins (t : Token) : Bool := t.operator?.any Operator.joins

/-- Whether a list ends with an operator that wants something behind it. -/
def endsOpen (ts : List Token) : Bool := ts.getLast?.any Token.joins

namespace CleanScanLemmas

variable {stop : Token → Bool} {depth : Nat} {t : Token} {ts after : List Token}
  {frames : List Frame} {previous : Previous} {before : Option Token}

theorem endsOpen_cons (full : ts ≠ []) : endsOpen (t :: ts) = endsOpen ts := by
  cases ts with
  | nil => exact absurd rfl full
  | cons s ts => rw [endsOpen, List.getLast?_cons_cons, endsOpen]

theorem isOperator_eq_endsOpen {next : Previous}
    (here : previous.isOperator = t.joins) (same : ts = [] → next = previous)
    (ends : ts ≠ [] → next.isOperator = endsOpen ts) : next.isOperator = endsOpen (t :: ts) := by
  by_cases full : ts = []
  · rw [same full, here, full]
    rfl
  · rw [ends full, endsOpen_cons full]

theorem ne_nil_of_isClosed_succ (closed : isClosed stop (depth + 1) ts = true) : ts ≠ [] := by
  rintro rfl
  exact absurd (isClosed_nil.mp closed) (by simp)

theorem clean_of_clause (keyword : t.isWhere = true)
    (clean : Clean frames previous before (t :: ts)) :
    Clean frames .operand none (argumentEnd 0 ts) := by
  cases clean with
  | clause _ _ rest => exact rest
  | operand isOperand _ _ =>
    rw [isWhere_of_isOperand isOperand] at keyword
    exact absurd keyword (by simp)
  | _ => simp [Token.isWhere, Token.isKeyword] at keyword

theorem isOperator_of_after? {next : Previous} {op : Operator}
    (step : previous.after? op = some next) : next.isOperator = true := by
  cases previous with
  | operand =>
    cases step
    rfl
  | start =>
    rw [Previous.after?] at step
    split at step <;> cases step
    rfl
  | operator first paired =>
    rw [Previous.after?] at step
    split at step
    · cases step
      rfl
    · split at step <;> cases step
      rfl

theorem endsValue_append (full : ts ≠ []) : endsValue (ts ++ after) = endsValue ts := by
  cases ts with
  | nil => exact absurd rfl full
  | cons s ts =>
    cases s with
    | operator op => cases op <;> rfl
    | _ => rfl

theorem isCallName_of_startsCall {name : Token} (call : startsCall (name :: ts) = true) :
    name.isCallName = true ∧ ts.head? = some (.operator .leftParen) := by
  unfold startsCall at call
  split at call
  · rename_i name' rest same
    obtain ⟨rfl, rfl⟩ := List.cons.inj same
    exact ⟨call, rfl⟩
  · exact absurd call (by simp)

theorem startsCall_of_isCallName {name : Token} (call : name.isCallName = true)
    (opened : ts.head? = some (.operator .leftParen)) : startsCall (name :: ts) = true := by
  cases ts with
  | nil => simp at opened
  | cons s ts =>
    obtain rfl := Option.some.inj opened
    exact call

theorem endsOpen_of_suffix {front ts : List Token} (suffix : ts <:+ front) (full : ts ≠ []) :
    endsOpen front = endsOpen ts := by
  obtain ⟨before, rfl⟩ := suffix
  cases last : ts.getLast? with
  | none => exact absurd (List.getLast?_eq_none_iff.mp last) full
  | some t => rw [endsOpen, endsOpen, List.getLast?_append, last, Option.some_or]

theorem isParen_of_joins {op : Operator} (joins : op.joins = true) :
    (Token.operator op).isParen = false := by
  cases op <;> first | rfl | simp [Operator.joins] at joins

theorem ne_leftParen_of_joins {op : Operator} (joins : op.joins = true) :
    some (Token.operator op) ≠ some (.operator .leftParen) := by
  rintro ⟨⟩
  simp [Operator.joins] at joins

theorem isParen_of_isOperand (operand : t.isOperand = true) : t.isParen = false := by
  cases t with
  | operator op => simp [Token.isOperand] at operand
  | _ => rfl

theorem ne_leftParen_of_isOperand (operand : t.isOperand = true) :
    some t ≠ some (.operator .leftParen) := by
  rintro ⟨⟩
  simp [Token.isOperand] at operand

theorem joins_of_isOperand (operand : t.isOperand = true) : t.joins = false := by
  cases t with
  | operator op => simp [Token.isOperand] at operand
  | _ => rfl

/-- What ends a value cannot go on with it. -/
theorem not_isClosed_of_endsValue (ends : endsValue ts = true) :
    isClosed Token.endsArgument 0 ts = false := by
  cases closed : isClosed Token.endsArgument 0 ts with
  | false => rfl
  | true =>
    cases ts with
    | nil => simp [endsValue] at ends
    | cons t ts =>
      rcases t.paren_cases with rfl | rfl | plain
      · simp [endsValue, Token.isWhere, Token.isKeyword] at ends
      · simp [isClosed] at closed
      · have free := ((isClosed_cons plain).mp closed).1 rfl
        rw [Token.endsArgument, Bool.or_eq_false_iff] at free
        rcases t.comma_cases with rfl | other
        · simp [Token.isComma] at free
        · have ends : t.isWhere = true := by
            cases t with
            | operator op =>
              cases op with
              | comma => simp [Token.isComma] at other
              | rightParen => simp [Token.isParen] at plain
              | _ => exact ends
            | _ => exact ends
          rw [free.2] at ends
          exact absurd ends (by simp)

end CleanScanLemmas

/-- What a scan that is clean shows of a closed list `ts` in front of `after`, if it expects `next`
behind the list. -/
structure Passed (inner : List Frame) (previous : Previous) (before : Option Token)
    (ts after : List Token) (next : Previous) : Prop where
  same : ts = [] → next = previous
  ends : ts ≠ [] → next.isOperator = endsOpen ts
  /-- By itself the list is clean too, unless it ends open. -/
  alone : next.isOperator = false → after.head? ≠ some (.operator .leftParen) →
    ∀ before', Frame.ofToken before' = Frame.ofToken before → (inner ≠ [] → before' = before) →
      Clean inner previous before' ts

/-- One more token in front. What is behind it starts with `previous'` expected. -/
theorem Passed.cons {inner inner' : List Frame} {previous previous' next : Previous}
    {before before' : Option Token} {t : Token} {ts after : List Token}
    (passed : Passed inner' previous' before' ts after next) (here : previous'.isOperator = t.joins)
    (extend : after.head? ≠ some (.operator .leftParen) → Clean inner' previous' before' ts →
      ∀ first, Frame.ofToken first = Frame.ofToken before → (inner ≠ [] → first = before) →
        Clean inner previous first (t :: ts)) :
    Passed inner previous before (t :: ts) after next where
  same empty := absurd empty (List.cons_ne_nil _ _)
  ends _ := isOperator_eq_endsOpen here passed.same passed.ends
  alone settled free := extend free (passed.alone settled free before' rfl fun _ => rfl)

/-- A closed list inside a clean sequence is left where it was entered. Only the `*` of `COUNT`
depends on where it stands. -/
theorem Clean.exists_exit {inner base : List Frame} {previous : Previous} {before : Option Token}
    {ts after : List Token} (clean : Clean (inner ++ base) previous before (ts ++ after))
    (closed : isClosed Token.endsArgument inner.length ts = true) :
    ∃ next last, Clean base next last after ∧
      ((inner = [] → before = some (.operator .leftParen) → ts ≠ [.operator .star]) →
        Passed inner previous before ts after next) := by
  -- On the length of the list and not on the scan: a clause goes on behind what it skips.
  induction length : ts.length using Nat.strongRecOn
    generalizing inner previous before ts with
  | ind n ih =>
  subst length
  cases ts with
  | nil =>
    rw [isClosed_nil, List.length_eq_zero_iff] at closed
    subst closed
    exact ⟨previous, before, clean, fun _ => ⟨fun _ => rfl, fun full => absurd rfl full,
      fun settled _ _ _ _ => .done settled⟩⟩
  | cons t ts =>
    have shorter : ts.length < (t :: ts).length := by simp
    rw [List.cons_append] at clean
    cases clean with
    | clause keyword inCall rest =>
      obtain ⟨free, tail⟩ := (isClosed_cons (Token.isParen_of_isWhere keyword)).mp closed
      cases inner with
      | nil =>
        have stopped := free rfl
        simp [Token.endsArgument, keyword] at stopped
      | cons frame inner =>
        obtain ⟨skipped, closed⟩ :
            argumentEnd 0 (ts ++ after) = argumentEnd 0 ts ++ after ∧
              isClosed Token.endsArgument (inner.length + 1) (argumentEnd 0 ts) = true :=
          argumentEnd_append_of_inside tail
        rw [skipped] at rest
        obtain ⟨next, last, behind, passed⟩ := ih _
          (Nat.lt_of_le_of_lt (length_argumentEnd_le 0 ts) shorter) rest closed rfl
        have passed := passed fun outside => absurd outside (by simp)
        refine ⟨next, last, behind, fun _ => ⟨fun empty => absurd empty (by simp), fun _ => ?_, ?_⟩⟩
        · have full := ne_nil_of_isClosed_succ closed
          rw [passed.ends full, endsOpen_cons (ne_nil_of_isClosed_succ tail),
            endsOpen_of_suffix (argumentEnd_suffix 0) full]
        · intro settled free before' _ _
          exact .clause keyword inCall (passed.alone settled free none rfl fun _ => rfl)
    | openCall call rest =>
      obtain ⟨next, last, behind, passed⟩ :=
        ih _ shorter (show Clean ((Frame.ofToken before :: inner) ++ base) _ _ _ from rest) closed rfl
      have passed := passed fun outside => absurd outside (by simp)
      refine ⟨next, last, behind, fun _ => passed.cons rfl fun _ clean before' same _ => ?_⟩
      refine .openCall (by rw [same]; exact call) ?_
      rw [same]
      exact clean
    | openGroup group isFree filled rest =>
      obtain ⟨next, last, behind, passed⟩ :=
        ih _ shorter (show Clean ((Frame.group :: inner) ++ base) _ _ _ from rest) closed rfl
      have passed := passed fun outside => absurd outside (by simp)
      have full := ne_nil_of_isClosed_succ (show isClosed _ (inner.length + 1) ts = true from closed)
      rw [List.head?_append_of_ne_nil _ full] at filled
      exact ⟨next, last, behind, fun _ => passed.cons rfl fun _ clean before' same _ =>
        .openGroup (same.trans group) isFree filled clean⟩
    | close settled rest =>
      obtain ⟨depth, length, tail⟩ := isClosed_rightParen.mp closed
      cases inner with
      | nil => simp at length
      | cons frame inner =>
        obtain rfl : inner.length = depth := by simpa using length
        obtain ⟨next, last, behind, passed⟩ := ih _ shorter rest tail rfl
        have passed := passed fun _ opened => absurd opened (by simp)
        exact ⟨next, last, behind, fun _ => passed.cons rfl fun _ clean _ _ _ =>
          .close settled clean⟩
    | comma inCall settled rest =>
      obtain ⟨isFree, tail⟩ := (isClosed_cons rfl).mp closed
      have full : inner ≠ [] := by
        rintro rfl
        exact absurd (isFree rfl) (by simp [Token.endsArgument, Token.isComma])
      obtain ⟨next, last, behind, passed⟩ := ih _ shorter rest tail rfl
      have passed := passed fun outside => absurd outside full
      rw [List.head?_append_of_ne_nil _ full] at inCall
      exact ⟨next, last, behind, fun _ => passed.cons rfl fun _ clean _ _ _ =>
        .comma inCall settled clean⟩
    | operator joins step rest =>
      obtain ⟨-, tail⟩ := (isClosed_cons (isParen_of_joins joins)).mp closed
      obtain ⟨next, last, behind, passed⟩ := ih _ shorter rest tail rfl
      have passed := passed fun _ opened => absurd opened (ne_leftParen_of_joins joins)
      have waits := (isOperator_of_after? step).trans joins.symm
      exact ⟨next, last, behind, fun _ => passed.cons waits fun _ clean _ _ _ =>
        .operator joins step clean⟩
    | wildcard call opened ends rest =>
      obtain ⟨-, tail⟩ := (isClosed_cons rfl).mp closed
      obtain ⟨next, last, behind, passed⟩ := ih _ shorter rest tail rfl
      have passed := passed fun _ opened => absurd opened (by simp)
      refine ⟨next, last, behind, fun countsValues => ?_⟩
      -- The star leaves an operand behind although it is an operator, so what it ends with is not
      -- its own doing: there is more of the list behind it, or the list is the excluded one.
      cases ts with
      | nil =>
        rw [isClosed_nil, List.length_eq_zero_iff] at tail
        exact absurd rfl (countsValues tail opened)
      | cons s ts =>
        rw [endsValue_append (by simp)] at ends
        have full : inner ≠ [] := by
          rintro rfl
          exact absurd tail (by simp [not_isClosed_of_endsValue ends])
        refine ⟨fun empty => absurd empty (by simp), fun _ => ?_, ?_⟩
        · rw [passed.ends (List.cons_ne_nil _ _)]
          exact (endsOpen_cons (List.cons_ne_nil _ _)).symm
        · intro settled free before' _ same
          rw [List.head?_append_of_ne_nil _ full] at call
          rw [same full]
          exact .wildcard call opened ends (passed.alone settled free _ rfl fun _ => rfl)
    | function isFree called rest =>
      obtain ⟨-, tail⟩ := (isClosed_cons rfl).mp closed
      obtain ⟨next, last, behind, passed⟩ := ih _ shorter rest tail rfl
      have passed := passed fun _ opened => absurd opened (by simp)
      refine ⟨next, last, behind, fun _ => passed.cons rfl fun free clean _ _ _ => ?_⟩
      obtain ⟨name, opened⟩ := isCallName_of_startsCall called
      have full : ts ≠ [] := by
        rintro rfl
        exact free opened
      rw [List.head?_append_of_ne_nil _ full] at opened
      exact .function isFree (startsCall_of_isCallName name opened) clean
    | operand isOperand isFree rest =>
      obtain ⟨-, tail⟩ := (isClosed_cons (isParen_of_isOperand isOperand)).mp closed
      obtain ⟨next, last, behind, passed⟩ := ih _ shorter rest tail rfl
      have passed := passed fun _ opened => absurd opened (ne_leftParen_of_isOperand isOperand)
      have here : Previous.isOperator .operand = t.joins := (joins_of_isOperand isOperand).symm
      exact ⟨next, last, behind, fun _ => passed.cons here fun _ clean _ _ _ =>
        .operand isOperand isFree clean⟩

end RecordFormula
