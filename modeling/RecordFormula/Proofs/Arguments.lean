import RecordFormula.Proofs.Calls
import RecordFormula.Proofs.CleanScan

/-!
# Arguments of a well-formed list

The structure of a token list is checked once, for the whole list. What an evaluation gets to see are
the arguments of its calls and the values in front of their conditions. This module says what the
check of the whole tells about them.

Results:
1. `structuralErrors_eq_nil_iff`: a list is well formed exactly if it is `Sound`.
2. `Sound.arguments` and `Sound.rest_of_call`: in a call a sound list is sound from each argument on, and
   behind the call its rest is.
3. `Sound.argument`: an argument is well formed itself, is the `*` of `COUNT(*)`, or has a condition
   that can be read. The value in front of a condition may end with an operator.
-/

namespace RecordFormula

open NestingLemmas CleanScanLemmas CallsLemmas

/-- What is known of the rest of a well-formed list where a scan has come to. -/
structure Sound (frames : List Frame) (previous : Previous) (before : Option Token)
    (ts : List Token) : Prop where
  closed : isClosed Token.never frames.length ts = true
  calls : ∀ call ∈ callsIn ts, callErrors call = []
  clean : Clean frames previous before ts

/-- A token list is well formed exactly if it is not empty and sound. -/
theorem structuralErrors_eq_nil_iff {ts : List Token} :
    structuralErrors ts = [] ↔ ts ≠ [] ∧ Sound [] .start none ts := by
  by_cases empty : ts = []
  · subst empty
    simp [structuralErrors]
  · have full : ts.isEmpty = false := by simpa using empty
    rw [structuralErrors, full]
    simp only [Bool.false_eq_true, if_false]
    cases balanced : parensBalanced ts with
    | false =>
      refine ⟨fun errors => by simp at errors, ?_⟩
      rintro ⟨-, closed, -, -⟩
      rw [parensBalanced_iff.mpr closed] at balanced
      exact absurd balanced (by simp)
    | true =>
      have closed := parensBalanced_iff.mp balanced
      simp only [Bool.not_true, Bool.false_eq_true, if_false, List.append_eq_nil_iff,
        sequenceErrors_eq_nil_iff, allCallErrors_eq closed, List.flatMap_eq_nil_iff]
      exact ⟨fun errors => ⟨empty, closed, errors.1, errors.2⟩,
        fun sound => ⟨sound.2.calls, sound.2.clean⟩⟩

/-- An argument that the check of the whole has covered. -/
inductive SoundArgument (function : String) : List Token → Prop
  | value {arg : List Token} :
      splitWhere arg = none → structuralErrors arg = [] → SoundArgument function arg
  | wildcard : function = "COUNT" → SoundArgument function [.operator .star]
  /-- The value in front of a condition is covered as far as its last operator. -/
  | filtered {arg value tokens : List Token} {condition : Condition} :
      splitWhere arg = some (value, tokens) →
      (Catalog.standard.find? function).any (·.mode == .aggregate) = true →
      Condition.parse tokens = .ok condition →
      (function = "COUNT" ∧ (value = [] ∨ value = [.operator .star])) ∨ endsOpen value = true ∨
        structuralErrors value = [] →
      SoundArgument function arg

/-! ## The sequence of an argument -/

/-- What a clean scan of a call shows of the value of an argument. -/
def CleanValue (frame : Frame) (value : List Token) : Prop :=
  (frame = .call true ∧ value = [.operator .star]) ∨ Clean [] .start none value

namespace ArgumentsLemmas

variable {frame : Frame} {frames : List Frame} {before : Option Token} {arg after : List Token}

/-- Nothing but a call of `COUNT` may have a `*` at the start of an argument. -/
theorem frame_of_star (clean : Clean (frame :: frames) .start before (.operator .star :: after)) :
    frame = .call true := by
  cases clean with
  | operator _ step _ => simp [Previous.after?, Operator.isSign] at step
  | wildcard call _ _ _ => simpa using call
  | operand isOperand _ _ => simp [Token.isOperand] at isOperand
  | clause keyword _ _ => simp [Token.isWhere, Token.isKeyword] at keyword

theorem clean_value {t : Token} {value : List Token}
    (clean : Clean (frame :: frames) .start before (value ++ t :: after))
    (closed : isClosed Token.endsArgument 0 value = true)
    (opens : Frame.ofToken before = .group) (next : t ≠ .operator .leftParen) :
    ∃ previous last, Clean (frame :: frames) previous last (t :: after) ∧
      (previous.isOperator = false → CleanValue frame value) ∧
      (previous.isOperator = true → endsOpen value = true) := by
  obtain ⟨previous, last, behind, passed⟩ :=
    Clean.exists_exit (show Clean ([] ++ frame :: frames) _ _ _ from clean) closed
  refine ⟨previous, last, behind, ?_⟩
  -- The `*` of a call is clean where it stands but not by itself.
  by_cases star : before = some (.operator .leftParen) ∧ value = [.operator .star]
  · obtain ⟨rfl, rfl⟩ := star
    exact ⟨fun _ => .inl ⟨frame_of_star clean, rfl⟩, fun _ => rfl⟩
  · have passed := passed fun _ opened whole => star ⟨opened, whole⟩
    refine ⟨fun settled => .inr (passed.alone settled ?_ none ?_ ?_), fun waits => ?_⟩
    · simpa using next
    · rw [opens]
      rfl
    · exact fun inside => absurd rfl inside
    · by_cases empty : value = []
      · rw [passed.same empty] at waits
        exact absurd waits (by simp [Previous.isOperator])
      · rw [← passed.ends empty, waits]

theorem clean_of_comma {previous : Previous} {last : Option Token}
    (clean : Clean frames previous last (.operator .comma :: after)) :
    previous.isOperator = false ∧ Clean frames .start (some (.operator .comma)) after := by
  cases clean with
  | comma _ settled rest => exact ⟨settled, rest⟩
  | operator joins _ _ => simp [Operator.joins] at joins
  | operand isOperand _ _ => simp [Token.isOperand] at isOperand
  | clause keyword _ _ => simp [Token.isWhere, Token.isKeyword] at keyword

theorem clean_of_rightParen {previous : Previous} {last : Option Token}
    (clean : Clean frames previous last (.operator .rightParen :: after)) :
    previous.isOperator = false ∧
      Clean frames.tail .operand (some (.operator .rightParen)) after := by
  cases clean with
  | close settled rest => exact ⟨settled, rest⟩
  | operator joins _ _ => simp [Operator.joins] at joins
  | operand isOperand _ _ => simp [Token.isOperand] at isOperand
  | clause keyword _ _ => simp [Token.isWhere, Token.isKeyword] at keyword

/-- At a comma or a closing parenthesis no operator waits. -/
theorem settled_of_clean {previous : Previous} {last : Option Token} {closing : Operator}
    (clean : Clean frames previous last (.operator closing :: after))
    (ends : closing = .comma ∨ closing = .rightParen) : previous.isOperator = false := by
  rcases ends with rfl | rfl
  · exact (clean_of_comma clean).1
  · exact (clean_of_rightParen clean).1

theorem argumentEnd_of_isClosed {closing : Operator} (closed : isClosed Token.isComma 0 arg = true)
    (ends : closing = .comma ∨ closing = .rightParen) :
    argumentEnd 0 (arg ++ .operator closing :: after) = .operator closing :: after := by
  have passed : argumentEnd (0 + 0) (arg ++ .operator closing :: after) =
      argumentEnd 0 (.operator closing :: after) :=
    argumentEnd_append closed fun _ _ comma => comma
  rw [passed]
  rcases ends with rfl | rfl <;> rfl

theorem clean_argument {closing : Operator}
    (clean : Clean (frame :: frames) .start before (arg ++ .operator closing :: after))
    (closed : isClosed Token.isComma 0 arg = true)
    (ends : closing = .comma ∨ closing = .rightParen) (opens : Frame.ofToken before = .group) :
    (∃ previous last, Clean (frame :: frames) previous last (.operator closing :: after)) ∧
      (splitWhere arg = none → CleanValue frame arg) ∧
      ∀ value condition, splitWhere arg = some (value, condition) →
        endsOpen value = true ∨ CleanValue frame value := by
  cases split : splitWhere arg with
  | none =>
    have notOpen : Token.operator closing ≠ .operator .leftParen := by
      rcases ends with rfl | rfl <;> simp
    obtain ⟨previous, last, behind, value, -⟩ :=
      clean_value clean (splitWhereFrom_eq_none closed split) opens notOpen
    exact ⟨⟨previous, last, behind⟩, fun _ => value (settled_of_clean behind ends), by simp⟩
  | some parts =>
    obtain ⟨value, condition⟩ := parts
    obtain ⟨keyword, isWhere, rfl, valueClosed, conditionClosed⟩ :=
      splitWhereFrom_eq_some closed split
    have notOpen : keyword ≠ .operator .leftParen := by
      rintro rfl
      simp [Token.isWhere, Token.isKeyword] at isWhere
    rw [List.append_assoc, List.cons_append] at clean
    obtain ⟨previous, last, behind, value, waits⟩ := clean_value clean valueClosed opens notOpen
    refine ⟨⟨.operand, none, ?_⟩, by simp, ?_⟩
    · rw [← argumentEnd_of_isClosed conditionClosed ends]
      exact clean_of_clause isWhere behind
    · intro value' condition' same
      obtain ⟨rfl, rfl⟩ := Prod.mk.inj (Option.some.inj same)
      cases previous with
      | operator op paired => exact .inl (waits rfl)
      | _ => exact .inr (value rfl)

theorem clean_of_call {previous : Previous} {t : Token} (name : t.isCallName = true)
    (clean : Clean frames previous before (t :: .operator .leftParen :: after)) :
    previous ≠ .operand ∧
      Clean (Frame.ofToken (some t) :: frames) .start (some (.operator .leftParen)) after := by
  have opened (clean : Clean frames .operand (some t) (.operator .leftParen :: after)) :
      Clean (Frame.ofToken (some t) :: frames) .start (some (.operator .leftParen)) after := by
    cases clean with
    | openCall _ rest => exact rest
    | openGroup group _ _ _ => simp [Frame.ofToken, name] at group
    | operator joins _ _ => simp [Operator.joins] at joins
    | operand isOperand _ _ => simp [Token.isOperand] at isOperand
    | clause keyword _ _ => simp [Token.isWhere, Token.isKeyword] at keyword
  cases clean with
  | function isFree _ rest => exact ⟨isFree, opened rest⟩
  | operand _ isFree rest => exact ⟨isFree, opened rest⟩
  | clause keyword _ _ =>
    cases t with
    | field word =>
      have reserved : isReserved word = true := by
        rw [isReserved, Bool.or_eq_true]
        exact .inl keyword
      simp [Token.isCallName, reserved] at name
    | _ => simp [Token.isWhere, Token.isKeyword] at keyword
  | _ => simp [Token.isCallName] at name

theorem callName_of_frame {t : Token} (count : Frame.ofToken (some t) = .call true) :
    t.callName = "COUNT" := by
  cases t with
  | function name => simpa [Frame.ofToken, Token.isCallName, Token.callName] using count
  | field name =>
    cases reserved : isReserved name <;>
      simp [Frame.ofToken, Token.isCallName, reserved] at count
  | _ => simp [Frame.ofToken, Token.isCallName] at count

theorem callName_of_read {t : Token} {ts : List Token} {call : Call}
    (starts : startsCall (t :: ts) = true) (found : Call.read (t :: ts) = .ok call) :
    call.name = t.callName := by
  obtain ⟨inner, pieces, -, -, rfl⟩ := read_eq_ok starts found
  rfl

theorem of_callErrors {call : Call} (errors : callErrors call = []) (mem : arg ∈ call.args) :
    arg ≠ [] ∧ ∀ value tokens, splitWhere arg = some (value, tokens) →
      (Catalog.standard.find? call.name).any (·.mode == .aggregate) = true ∧
      (value = [] → call.name = "COUNT") ∧ ∃ condition, Condition.parse tokens = .ok condition := by
  have some : call.args.isEmpty = false := by
    rw [List.isEmpty_eq_false_iff]
    exact List.ne_nil_of_mem mem
  rw [callErrors, some] at errors
  simp only [Bool.false_eq_true, if_false, List.flatMap_eq_nil_iff, Prod.forall] at errors
  obtain ⟨index, inside, rfl⟩ := List.getElem_of_mem mem
  have errors := errors call.args[index] index
    (List.mk_mem_zipIdx_iff_getElem?.mpr (List.getElem?_eq_getElem inside))
  rw [argumentErrors] at errors
  by_cases empty : call.args[index] = []
  · simp [empty] at errors
  · refine ⟨empty, fun value tokens split => ?_⟩
    simp only [List.isEmpty_eq_false_iff.mpr empty, Bool.false_eq_true, if_false, split] at errors
    cases mode : (Catalog.standard.find? call.name).any (·.mode == .aggregate) with
    | false => simp [mode] at errors
    | true =>
      simp only [mode, Bool.not_true, Bool.false_eq_true, if_false, List.append_eq_nil_iff] at errors
      refine ⟨rfl, fun none => ?_, ?_⟩
      · simpa [none] using errors.1
      · cases parsed : Condition.parse tokens with
        | ok condition => exact ⟨condition, rfl⟩
        | error reason => simp [parsed] at errors

end ArgumentsLemmas

open ArgumentsLemmas

namespace Sound

variable {frame : Frame} {frames : List Frame} {previous next : Previous} {before last : Option Token}
  {t : Token} {ts inner rest : List Token} {call : Call}

/-- What is behind a closed part of a sound list is sound, if the scan comes to it. -/
theorem behind {stop : Token → Bool} {front : List Token}
    (sound : Sound frames previous before (front ++ ts)) (closed : isClosed stop 0 front = true)
    (clean : Clean frames next last ts) : Sound frames next last ts where
  closed := by
    have whole : isClosed Token.never (frames.length + 0) (front ++ ts) =
        isClosed Token.never frames.length ts :=
      isClosed_append closed fun _ _ impossible => absurd impossible (by simp [Token.never])
    exact whole ▸ sound.closed
  calls call mem := sound.calls call (callsIn_subset_of_suffix ⟨front, rfl⟩ mem)
  clean := clean

theorem of_call (sound : Sound frames previous before (t :: .operator .leftParen :: inner))
    (name : t.isCallName = true) :
    previous ≠ .operand ∧
      Sound (Frame.ofToken (some t) :: frames) .start (some (.operator .leftParen)) inner := by
  obtain ⟨isFree, clean⟩ := clean_of_call name sound.clean
  have opened : isClosed Token.never frames.length (.operator .leftParen :: inner) = true :=
    ((isClosed_cons (isParen_of_isCallName name)).mp sound.closed).2
  exact ⟨isFree, opened, fun call mem => sound.calls call
    (callsIn_subset_of_suffix ⟨[t, .operator .leftParen], rfl⟩ mem), clean⟩

theorem of_comma (sound : Sound frames previous before (.operator .comma :: ts)) :
    Sound frames .start (some (.operator .comma)) ts where
  closed := ((isClosed_cons rfl).mp sound.closed).2
  calls call mem := sound.calls call (callsIn_subset_of_suffix (List.suffix_cons _ ts) mem)
  clean := (clean_of_comma sound.clean).2

theorem of_rightParen (sound : Sound (frame :: frames) previous before (.operator .rightParen :: ts)) :
    Sound frames .operand (some (.operator .rightParen)) ts where
  closed := by
    obtain ⟨depth, same, closed⟩ := isClosed_rightParen.mp sound.closed
    obtain rfl := Nat.succ.inj same
    exact closed
  calls call mem := sound.calls call (callsIn_subset_of_suffix (List.suffix_cons _ ts) mem)
  clean := (clean_of_rightParen sound.clean).2

/-- The scan of a call comes to the start of each argument and then to what is behind the call. -/
theorem arguments {first : List Token} {more : List (List Token)}
    (sound : Sound (frame :: frames) .start before
      (withCommas first more ++ .operator .rightParen :: rest))
    (closed : ∀ arg ∈ first :: more, isClosed Token.isComma 0 arg = true)
    (opens : Frame.ofToken before = .group) :
    Sound frames .operand (some (.operator .rightParen)) rest ∧
      ∀ arg ∈ first :: more, ∃ before closing after, Frame.ofToken before = .group ∧
        (closing = .comma ∨ closing = .rightParen) ∧
        Sound (frame :: frames) .start before (arg ++ .operator closing :: after) := by
  induction more generalizing first before with
  | nil =>
    rw [withCommas, List.flatMap_nil, List.append_nil] at sound
    have argClosed := closed first List.mem_cons_self
    obtain ⟨⟨previous, last, clean⟩, -⟩ := clean_argument sound.clean argClosed (.inr rfl) opens
    refine ⟨(sound.behind argClosed clean).of_rightParen, fun arg mem => ?_⟩
    obtain rfl := List.mem_singleton.mp mem
    exact ⟨before, _, rest, opens, .inr rfl, sound⟩
  | cons second more ih =>
    rw [show withCommas first (second :: more) =
      first ++ .operator .comma :: withCommas second more by simp [withCommas],
      List.append_assoc, List.cons_append] at sound
    have argClosed := closed first List.mem_cons_self
    obtain ⟨⟨previous, last, clean⟩, -⟩ := clean_argument sound.clean argClosed (.inl rfl) opens
    obtain ⟨exit, others⟩ := ih (sound.behind argClosed clean).of_comma
      (fun arg mem => closed arg (List.mem_cons_of_mem _ mem)) rfl
    refine ⟨exit, fun arg mem => ?_⟩
    rcases List.mem_cons.mp mem with rfl | mem
    · exact ⟨before, _, _, opens, .inl rfl, sound⟩
    · exact others arg mem

/-- A call in a sound list: no operand has just ended, the list behind it is sound, and the scan comes
to the start of each argument. -/
theorem parts_of_call (sound : Sound frames previous before (t :: ts))
    (starts : startsCall (t :: ts) = true) (found : Call.read (t :: ts) = .ok call) :
    previous ≠ .operand ∧ Sound frames .operand (some (.operator .rightParen)) call.rest ∧
      ∀ arg ∈ call.args, ∃ before closing after, Frame.ofToken before = .group ∧
        (closing = .comma ∨ closing = .rightParen) ∧
        Sound (Frame.ofToken (some t) :: frames) .start before
          (arg ++ .operator closing :: after) := by
  obtain ⟨inner, pieces, rfl, read, rfl⟩ := read_eq_ok starts found
  obtain ⟨-, -, whole⟩ := read?_eq_some_iff.mp read
  obtain ⟨isFree, inside⟩ := sound.of_call (startsCall_iff.mp starts).1
  rw [whole] at inside
  obtain ⟨rest, args⟩ := inside.arguments (fun _ => isClosed_of_mem_pieces read) rfl
  exact ⟨isFree, rest, fun arg mem => args arg (Pieces.mem_of_mem_args mem)⟩

/-- Where a call starts no operand has just ended, and behind the call the list is sound again. -/
theorem rest_of_call (sound : Sound frames previous before (t :: ts))
    (starts : startsCall (t :: ts) = true) (found : Call.read (t :: ts) = .ok call) :
    previous ≠ .operand ∧ Sound frames .operand (some (.operator .rightParen)) call.rest := by
  obtain ⟨isFree, rest, -⟩ := sound.parts_of_call starts found
  exact ⟨isFree, rest⟩

/-- A part of an argument with a clean scan is well formed, or the `*` of `COUNT(*)`. -/
theorem value (sound : Sound frames previous before (t :: ts)) {value : List Token}
    (clean : CleanValue (Frame.ofToken (some t)) value) (full : value ≠ [])
    (closed : isClosed Token.endsArgument 0 value = true)
    (calls : callsIn value ⊆ callsIn (t :: ts)) :
    (t.callName = "COUNT" ∧ value = [.operator .star]) ∨ structuralErrors value = [] := by
  rcases clean with ⟨count, star⟩ | clean
  · exact .inl ⟨callName_of_frame count, star⟩
  · exact .inr (structuralErrors_eq_nil_iff.mpr
      ⟨full, isClosed_never closed, fun call mem => sound.calls call (calls mem), clean⟩)

/-- The arguments of a call in a sound list are covered by its check. -/
theorem argument (sound : Sound frames previous before (t :: ts))
    (starts : startsCall (t :: ts) = true) (found : Call.read (t :: ts) = .ok call)
    {arg : List Token} (mem : arg ∈ call.args) : SoundArgument call.name arg := by
  have closed := isClosed_arg starts found mem
  have calls := callsIn_arg starts found mem
  have errors : callErrors call = [] :=
    sound.calls { call with rest := [] } (mem_callsIn starts found)
  obtain ⟨full, conditions⟩ := of_callErrors errors mem
  obtain ⟨-, -, args⟩ := sound.parts_of_call starts found
  obtain ⟨_, closing, after, opens, ends, inside⟩ := args arg mem
  obtain ⟨-, plain, withCondition⟩ := clean_argument inside.clean closed ends opens
  cases split : splitWhere arg with
  | none =>
    rcases sound.value (plain split) full (splitWhereFrom_eq_none closed split) calls with
      ⟨count, rfl⟩ | errors
    · exact .wildcard ((callName_of_read starts found).trans count)
    · exact .value split errors
  | some parts =>
    obtain ⟨value, tokens⟩ := parts
    obtain ⟨aggregate, optional, condition, parsed⟩ := conditions value tokens split
    refine .filtered split aggregate parsed ?_
    obtain ⟨keyword, -, -, valueClosed, -⟩ := splitWhereFrom_eq_some closed split
    by_cases empty : value = []
    · exact .inl ⟨optional empty, .inl empty⟩
    · rcases withCondition value tokens split with isOpen | clean
      · exact .inr (.inl isOpen)
      · rcases sound.value clean empty valueClosed
          (List.Subset.trans (callsIn_value closed split) calls) with ⟨count, star⟩ | errors
        · exact .inl ⟨(callName_of_read starts found).trans count, .inr star⟩
        · exact .inr (.inr errors)

end Sound

end RecordFormula
