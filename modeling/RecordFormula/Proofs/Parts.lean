import RecordFormula.Proofs.Arguments
import RecordFormula.Proofs.TwoRuns

/-!
# Parts that an evaluation comes to

An evaluation works out a whole list, the arguments of its calls and the values in front of their
conditions, each by itself. Such a part need not be well formed: it may end at a `WHERE` with an operator
that the check has let pass. But it stands in a sound list, and for its calls that is enough.

Results:
1. `Part.of_wellFormed`: a well-formed list is a part.
2. `Part.tail`, `Part.of_call` and `Part.of_parse`: what an evaluation goes on with is a part again.
3. `Part.count_of_wildcard`: only `COUNT` gets records without a value.
-/

namespace RecordFormula

open NestingLemmas CallsLemmas CleanScanLemmas ArgumentsLemmas

/-- A list that closes its parentheses and stands in a sound one. What is behind it there does not make
its last token a call. -/
inductive Part (ts : List Token) : Prop
  | intro {frames : List Frame} {previous : Previous} {before : Option Token} {behind : List Token}
      {depth : Nat} :
      Sound frames previous before (ts ++ behind) → isClosed Token.never depth ts = true →
      behind.head? ≠ some (.operator .leftParen) → Part ts

/-- A scan that does not come to a condition takes one token at a time. -/
theorem Sound.tail {frames : List Frame} {previous : Previous} {before : Option Token} {t : Token}
    {ts : List Token} (sound : Sound frames previous before (t :: ts)) (noWhere : t.isWhere = false) :
    ∃ frames' previous' before', Sound frames' previous' before' ts := by
  obtain ⟨closed, calls, clean⟩ := sound
  have inside : ∀ call ∈ callsIn ts, callErrors call = [] :=
    fun call mem => calls call (callsIn_subset_of_suffix (List.suffix_cons t ts) mem)
  have level (plain : t.isParen = false) : isClosed Token.never frames.length ts = true :=
    ((isClosed_cons plain).mp closed).2
  cases clean with
  | clause keyword => exact absurd (keyword.symm.trans noWhere) (by simp)
  | openCall _ clean => exact ⟨_, _, _, closed, inside, clean⟩
  | openGroup _ _ _ clean => exact ⟨_, _, _, closed, inside, clean⟩
  | close _ clean =>
    obtain ⟨depth, length, closed⟩ := isClosed_rightParen.mp closed
    have outer : frames.tail.length = depth := by rw [List.length_tail, length, Nat.add_sub_cancel]
    exact ⟨_, _, _, outer ▸ closed, inside, clean⟩
  | comma _ _ clean => exact ⟨_, _, _, level rfl, inside, clean⟩
  | operator joins _ clean => exact ⟨_, _, _, level (isParen_of_joins joins), inside, clean⟩
  | wildcard _ _ _ clean => exact ⟨_, _, _, level rfl, inside, clean⟩
  | function _ _ clean => exact ⟨_, _, _, level rfl, inside, clean⟩
  | operand isOperand _ clean =>
    exact ⟨_, _, _, level (isParen_of_isOperand isOperand), inside, clean⟩

namespace Part

variable {t : Token} {ts arg value tokens : List Token} {call : Call} {parsed : AggregateArgument}

theorem of_wellFormed (wellFormed : structuralErrors ts = []) : Part ts := by
  obtain ⟨-, sound⟩ := structuralErrors_eq_nil_iff.mp wellFormed
  have whole : Sound [] .start none (ts ++ []) := by rwa [List.append_nil]
  exact .intro whole sound.closed (by simp)

/-- Behind a token that is no `WHERE`. -/
theorem tail (part : Part (t :: ts)) (noWhere : t.isWhere = false) : Part ts := by
  obtain ⟨sound, closed, next⟩ := part
  obtain ⟨frames, previous, before, behind⟩ := sound.tail noWhere
  rcases t.paren_cases with rfl | rfl | plain
  · exact .intro behind closed next
  · obtain ⟨depth, -, closed⟩ := isClosed_rightParen.mp closed
    exact .intro behind closed next
  · exact .intro behind ((isClosed_cons plain).mp closed).2 next

theorem exists_call (part : Part (t :: ts)) (starts : startsCall (t :: ts) = true) :
    ∃ call, Call.read (t :: ts) = .ok call := by
  obtain ⟨-, closed, -⟩ := part
  obtain ⟨call, found, -⟩ := RecordFormula.exists_call starts closed
  exact ⟨call, found⟩

/-- What is behind a call is a part, and so are its arguments. Nothing is wrong with them, and only
those of `COUNT` may start with a `*`. -/
theorem of_call (part : Part (t :: ts)) (starts : startsCall (t :: ts) = true)
    (found : Call.read (t :: ts) = .ok call) :
    Part call.rest ∧ callErrors { call with rest := [] } = [] ∧
      ∀ arg ∈ call.args, Part arg ∧ (arg.head? = some (.operator .star) → call.name = "COUNT") := by
  obtain @⟨frames, previous, before, behind, depth, sound, closed, next⟩ := part
  have startsThere : startsCall (t :: (ts ++ behind)) = true :=
    (startsCall_append (List.cons_ne_nil t ts) next).trans starts
  have foundThere : Call.read (t :: (ts ++ behind)) = .ok { call with rest := call.rest ++ behind } :=
    read_append starts found
  obtain ⟨call', found', restClosed⟩ := RecordFormula.exists_call starts closed
  obtain rfl : call' = call := Except.ok.inj (found'.symm.trans found)
  obtain ⟨-, rest, args⟩ := Sound.parts_of_call sound startsThere foundThere
  have checked := sound.calls _ (mem_callsIn startsThere foundThere)
  refine ⟨.intro rest restClosed next, checked, fun arg mem => ?_⟩
  obtain ⟨_, closing, after, -, ends, inside⟩ := args arg mem
  refine ⟨.intro inside (isClosed_never (isClosed_arg starts found mem)) ?_, fun star => ?_⟩
  · rcases ends with rfl | rfl <;> simp
  · obtain ⟨behindStar, rfl⟩ := List.head?_eq_some_iff.mp star
    rw [callName_of_read starts found]
    exact callName_of_frame (frame_of_star inside.clean)

theorem of_value (part : Part arg) (closed : isClosed Token.isComma 0 arg = true)
    (split : splitWhere arg = some (value, tokens)) : Part value := by
  obtain ⟨sound, -, -⟩ := part
  obtain ⟨keyword, isWhere, rfl, valueClosed, -⟩ := splitWhereFrom_eq_some closed split
  rw [List.append_assoc] at sound
  refine .intro sound (isClosed_never valueClosed) ?_
  rintro ⟨⟩
  simp [Token.isWhere, Token.isKeyword] at isWhere

/-- The value of an aggregate is the argument or stands in front of its condition. -/
theorem of_parse (part : Part arg) (closed : isClosed Token.isComma 0 arg = true)
    (parse : AggregateArgument.parse arg = .ok parsed) :
    Part parsed.value ∧ parsed.value.length ≤ arg.length ∧ callsIn parsed.value ⊆ callsIn arg := by
  rcases parse_eq_ok parse with ⟨-, rfl⟩ | ⟨value, tokens, condition, split, -, rfl⟩
  · exact ⟨part, Nat.le_refl _, List.Subset.refl _⟩
  · refine ⟨part.of_value closed split, ?_, callsIn_value closed split⟩
    obtain ⟨behind, rfl, -⟩ := exists_behind_value closed split
    simp

theorem isWildcard_iff : parsed.isWildcard = true ↔
    parsed.value = [] ∨ parsed.value = [.operator .star] := by
  unfold AggregateArgument.isWildcard
  split <;> simp_all

/-- Only `COUNT` gets records without a value. -/
theorem count_of_wildcard (part : Part (t :: ts)) (starts : startsCall (t :: ts) = true)
    (found : Call.read (t :: ts) = .ok call) (mem : arg ∈ call.args)
    (parse : AggregateArgument.parse arg = .ok parsed) (wildcard : parsed.isWildcard = true) :
    call.name = "COUNT" := by
  obtain ⟨-, errors, args⟩ := part.of_call starts found
  obtain ⟨full, conditions⟩ := of_callErrors errors mem
  have star := (args arg mem).2
  rcases parse_eq_ok parse with ⟨-, rfl⟩ | ⟨value, tokens, condition, split, -, rfl⟩
  · rcases isWildcard_iff.mp wildcard with empty | rfl
    · exact absurd empty full
    · exact star rfl
  · rcases isWildcard_iff.mp wildcard with rfl | rfl
    · exact (conditions _ _ split).2.1 rfl
    · obtain ⟨behind, rfl, -⟩ := exists_behind_value (isClosed_arg starts found mem) split
      exact star rfl

end Part

end RecordFormula
