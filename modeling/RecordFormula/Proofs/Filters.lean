import RecordFormula.Proofs.Arguments
import RecordFormula.Proofs.Conditions
import RecordFormula.Proofs.Parentheses

/-!
# Filters of a well-formed list

A filter is found three times: the scan of the sequence passes over it, the check of its call splits the
argument that it is in, and so does the evaluation. The scan looks at the parentheses that are open and
skips to the end of the argument; the split counts parentheses from the start of the argument. A `WHERE`
that one of them did not see would be lost.

Results:
1. `Place.Holds.start_le`: of two calls around a position the one is inside the other.
2. `exists_filter`: in a sound list the scan comes to a `WHERE` in an argument only, outside the
   parentheses there, and the argument is split at it.
3. `where_is_filter`: so in a well-formed list every `WHERE` starts the condition of an aggregate.
-/

namespace RecordFormula

open NestingLemmas CallsLemmas CleanScanLemmas ArgumentsLemmas ParenthesesLemmas

/-! ## Places -/

/-- The arguments in front of one as they are written, each with its comma. -/
def inFront (args : List (List Token)) : List Token := args.flatMap (· ++ [.operator .comma])

/-- How far behind the name of a call an argument starts: behind the parenthesis and the arguments in front
of it. -/
def Call.argumentStart (call : Call) (index : Nat) : Nat :=
  2 + (inFront (call.args.take index)).length

/-- The call that starts at an index has a position between its parentheses. -/
structure Surrounds (ts : List Token) (start : Nat) (call : Call) (position : Nat) : Prop where
  starts : isCallStart ts start = true
  read : Call.readAt ts start = .ok call
  opened : start + 1 < position
  closing : position + 1 + call.rest.length < ts.length

/-- A place in an argument of a call. -/
structure Place where
  /-- Where the call starts. -/
  start : Nat
  call : Call
  /-- Which argument it is. -/
  index : Nat
  /-- How many tokens of the argument are in front. -/
  offset : Nat

/-- The position of a token list is a place in an argument. -/
structure Place.Holds (place : Place) (ts : List Token) (position : Nat) (arg : List Token) :
    Prop where
  starts : isCallStart ts place.start = true
  read : Call.readAt ts place.start = .ok place.call
  argument : place.call.args[place.index]? = some arg
  inside : place.offset < arg.length
  position_eq : position = place.start + place.call.argumentStart place.index + place.offset

/-- The place is that of a `WHERE` whose condition is read: it stands outside parentheses in the argument
of an aggregate, which is split there. -/
structure Place.Filters (place : Place) (arg : List Token) : Prop where
  aggregate : (Catalog.standard.find? place.call.name).any (·.mode == .aggregate) = true
  outside : level (arg.take place.offset) = 0
  split : splitWhere arg = some (arg.take place.offset, arg.drop (place.offset + 1))
  parsed : ∃ condition, Condition.parse (arg.drop (place.offset + 1)) = .ok condition

namespace FiltersLemmas

variable {stop : Token → Bool} {depth position index : Nat} {t : Token}
  {ts front back behind arg first : List Token} {more : List (List Token)} {call : Call}
  {frames base : List Frame} {previous : Previous} {before : Option Token} {place : Place}

theorem withCommas_cons (first second : List Token) (more : List (List Token)) :
    withCommas first (second :: more) = first ++ .operator .comma :: withCommas second more := by
  simp [withCommas]

theorem withCommas_eq (found : (first :: more)[index]? = some arg) :
    ∃ back, withCommas first more = inFront ((first :: more).take index) ++ (arg ++ back) ∧
      (back = [] ∨ ∃ others, back = .operator .comma :: others) := by
  induction more generalizing first index with
  | nil =>
    cases index with
    | zero =>
      obtain rfl := Option.some.inj found
      exact ⟨[], by simp [withCommas, inFront], .inl rfl⟩
    | succ index => exact absurd found (by simp)
  | cons second more ih =>
    rw [withCommas_cons]
    cases index with
    | zero =>
      obtain rfl := Option.some.inj found
      exact ⟨.operator .comma :: withCommas second more, by simp [inFront], .inr ⟨_, rfl⟩⟩
    | succ index =>
      have found : (second :: more)[index]? = some arg := by simpa using found
      obtain ⟨back, whole, ends⟩ := ih found
      exact ⟨back, by simp [whole, inFront], ends⟩

/-- What is written between the parentheses of a call and is no comma is in one of the arguments. -/
theorem exists_argument (here : (withCommas first more)[position]? = some t)
    (noComma : t.isComma = false) :
    ∃ index arg offset, (first :: more)[index]? = some arg ∧ arg[offset]? = some t ∧
      position = (inFront ((first :: more).take index)).length + offset := by
  induction more generalizing first position with
  | nil =>
    refine ⟨0, first, position, rfl, ?_, by simp [inFront]⟩
    simpa [withCommas] using here
  | cons second more ih =>
    rw [withCommas_cons] at here
    rcases Nat.lt_trichotomy position first.length with early | rfl | late
    · rw [List.getElem?_append_left early] at here
      exact ⟨0, first, position, rfl, here, by simp [inFront]⟩
    · rw [List.getElem?_append_right (Nat.le_refl _), Nat.sub_self] at here
      obtain rfl := Option.some.inj here
      exact absurd noComma (by simp [Token.isComma])
    · obtain ⟨k, rfl⟩ : ∃ k, position = first.length + (k + 1) := ⟨position - first.length - 1, by omega⟩
      rw [List.getElem?_append_right (by omega), Nat.add_sub_cancel_left, List.getElem?_cons_succ] at here
      obtain ⟨index, arg, offset, found, inside, rfl⟩ := ih here
      refine ⟨index + 1, arg, offset, by simpa using found, inside, ?_⟩
      simp [inFront]
      omega

/-- A call as it is written, with its arguments. Without a token between its parentheses it has none. -/
theorem exists_written_call (starts : startsCall ts = true) (found : Call.read ts = .ok call) :
    ∃ name first more,
      ts = name :: .operator .leftParen ::
        (withCommas first more ++ .operator .rightParen :: call.rest) ∧
      (∀ arg ∈ first :: more, isClosed Token.isComma 0 arg = true) ∧
      call.args = if first.isEmpty && more.isEmpty then [] else first :: more := by
  cases ts with
  | nil => exact absurd starts (by simp [startsCall])
  | cons name ts =>
    obtain ⟨inner, pieces, rfl, read, rfl⟩ := read_eq_ok starts found
    obtain ⟨-, -, whole⟩ := read?_eq_some_iff.mp read
    exact ⟨name, pieces.first, pieces.more, by rw [whole], fun _ => isClosed_of_mem_pieces read, rfl⟩

/-! ### Levels -/

theorem level_append (front back : List Token) : level (front ++ back) = level front + level back := by
  induction front with
  | nil => rw [List.nil_append, level_nil, Int.zero_add]
  | cons t front ih => rw [List.cons_append, level_cons, level_cons, ih, Int.add_assoc]

theorem balanced_of_isClosed (closed : isClosed stop 0 ts = true) : Balanced ts :=
  exists_tokenNesting_iff.mp
    (Option.isSome_iff_exists.mp (parensBalanced_iff.mpr (isClosed_never closed)))

theorem isClosed_withCommas (closed : ∀ arg ∈ first :: more, isClosed Token.isComma 0 arg = true) :
    isClosed Token.never 0 (withCommas first more) = true := by
  induction more generalizing first with
  | nil => simpa [withCommas] using isClosed_never (closed first List.mem_cons_self)
  | cons second more ih =>
    have passed : isClosed Token.never (0 + 0) (first ++ .operator .comma :: withCommas second more) =
        isClosed Token.never 0 (.operator .comma :: withCommas second more) :=
      isClosed_append (closed first List.mem_cons_self)
        fun _ _ impossible => absurd impossible (by simp [Token.never])
    rw [withCommas_cons, passed, isClosed_cons rfl]
    exact ⟨fun _ => rfl, ih fun arg mem => closed arg (List.mem_cons_of_mem _ mem)⟩

/-- What stands between the parenthesis of a call and a position. -/
def between (ts : List Token) (start position : Nat) : List Token :=
  (ts.take position).drop (start + 2)

theorem exists_around {start : Nat} (around : Surrounds ts start call position) :
    ∃ name first more,
      ts.drop start = name :: .operator .leftParen ::
        (withCommas first more ++ .operator .rightParen :: call.rest) ∧
      (∀ arg ∈ first :: more, isClosed Token.isComma 0 arg = true) ∧
      call.args = (if first.isEmpty && more.isEmpty then [] else first :: more) ∧
      between ts start position <+: withCommas first more := by
  obtain ⟨name, first, more, written, closed, args⟩ := exists_written_call around.starts around.read
  refine ⟨name, first, more, written, closed, args, ?_⟩
  have length := congrArg List.length written
  simp only [List.length_drop, List.length_cons, List.length_append] at length
  have opened := around.opened
  have closing := around.closing
  have short : position - (start + 2) ≤ (withCommas first more).length := by omega
  rw [between, List.drop_take, ← List.drop_drop, written]
  simp only [List.drop_succ_cons, List.drop_zero]
  rw [List.take_append_of_le_length short]
  exact List.take_prefix _ _

theorem level_nonneg {start : Nat} (around : Surrounds ts start call position) {front : List Token}
    (inside : front <+: between ts start position) : 0 ≤ level front := by
  obtain ⟨_, first, more, _, closed, _, within⟩ := exists_around around
  exact (balanced_of_isClosed (isClosed_withCommas closed)).opened front (inside.trans within)

theorem opening {start : Nat} (around : Surrounds ts start call position) :
    ts[start + 1]? = some (.operator .leftParen) := by
  obtain ⟨_, first, more, written, -⟩ := exists_around around
  have second := congrArg (·[1]?) written
  simpa using second

end FiltersLemmas

open FiltersLemmas

namespace Place

variable {ts arg otherArg : List Token} {position : Nat} {place other : Place}

/-- An argument stands behind the parenthesis of its call and the arguments in front of it, and a comma or
the end of the arguments is behind it. -/
theorem Holds.exists_written (holds : place.Holds ts position arg) :
    ∃ name back,
      ts.drop place.start = name :: .operator .leftParen ::
        (inFront (place.call.args.take place.index) ++ (arg ++ back) ++
          .operator .rightParen :: place.call.rest) ∧
      (back = [] ∨ ∃ others, back = .operator .comma :: others) ∧
      ∀ other ∈ place.call.args, isClosed Token.isComma 0 other = true := by
  obtain ⟨name, first, more, written, closed, args⟩ := exists_written_call holds.starts holds.read
  have found := holds.argument
  rw [args] at found
  split at found
  · exact absurd found (by simp)
  · rename_i full
    rw [if_neg full] at args
    obtain ⟨back, whole, ends⟩ := withCommas_eq found
    exact ⟨name, back, by rw [written, whole, args], ends, args ▸ closed⟩

theorem Holds.surrounds (holds : place.Holds ts position arg) :
    Surrounds ts place.start place.call position := by
  obtain ⟨name, back, written, -⟩ := holds.exists_written
  have length := congrArg List.length written
  simp only [List.length_drop, List.length_cons, List.length_append] at length
  have inside := holds.inside
  have here := holds.position_eq
  rw [Call.argumentStart] at here
  exact ⟨holds.starts, holds.read, by omega, by omega⟩

theorem Holds.exists_behind (holds : place.Holds ts position arg) :
    ∃ closing after, ts.drop position = arg.drop place.offset ++ .operator closing :: after ∧
      (closing = .comma ∨ closing = .rightParen) := by
  obtain ⟨name, back, written, ends, -⟩ := holds.exists_written
  have here := holds.position_eq
  rw [Call.argumentStart] at here
  have inside := Nat.le_of_lt holds.inside
  generalize inFront (place.call.args.take place.index) = front at written here
  have there : ts.drop position =
      arg.drop place.offset ++ (back ++ .operator .rightParen :: place.call.rest) := by
    rw [show position = place.start + (front.length + place.offset + 2) by omega, ← List.drop_drop,
      written, List.drop_succ_cons, List.drop_succ_cons, List.append_assoc, List.drop_length_add_append,
      List.append_assoc, List.drop_append_of_le_length inside]
  rcases ends with rfl | ⟨others, rfl⟩
  · exact ⟨.rightParen, _, there, .inr rfl⟩
  · exact ⟨.comma, _, there, .inl rfl⟩

theorem Holds.level_between (holds : place.Holds ts position arg) :
    level (between ts place.start position) = level (arg.take place.offset) := by
  obtain ⟨name, back, written, -, closed⟩ := holds.exists_written
  have here := holds.position_eq
  rw [Call.argumentStart] at here
  have inside := holds.inside
  have others : level (inFront (place.call.args.take place.index)) = 0 := by
    have closed : ∀ other ∈ place.call.args.take place.index, isClosed Token.isComma 0 other = true :=
      fun other mem => closed other (List.mem_of_mem_take mem)
    generalize place.call.args.take place.index = front at closed
    induction front with
    | nil => rfl
    | cons first front ih =>
      have balanced := balanced_of_isClosed (closed first List.mem_cons_self)
      have rest := ih fun other mem => closed other (List.mem_cons_of_mem _ mem)
      rw [inFront] at rest
      rw [inFront, List.flatMap_cons, level_append, level_append, balanced.closed, rest]
      rfl
  have cut : between ts place.start position =
      inFront (place.call.args.take place.index) ++ arg.take place.offset := by
    generalize inFront (place.call.args.take place.index) = front at written here
    rw [between, List.drop_take, ← List.drop_drop, written,
      show position - (place.start + 2) = front.length + place.offset by omega]
    simp only [List.drop_succ_cons, List.drop_zero, List.append_assoc]
    rw [List.take_length_add_append, List.take_append_of_le_length (Nat.le_of_lt inside)]
  rw [cut, level_append, others, Int.zero_add]

/-- A call that also has the position between its parentheses does not start later if the place is outside
parentheses in its argument. -/
theorem Holds.start_le (holds : place.Holds ts position arg) (outside : level (arg.take place.offset) = 0)
    {start : Nat} {call : Call} (around : Surrounds ts start call position) : start ≤ place.start := by
  refine Nat.le_of_not_lt fun later => ?_
  -- The other call opens between the two, and what is open there is still open at the position.
  have opened : start + 1 < position := around.opened
  obtain ⟨k, rfl⟩ : ∃ k, start = place.start + (k + 1) := ⟨start - place.start - 1, by omega⟩
  let inner := between ts place.start position
  have inside : inner[k]? = some (.operator .leftParen) := by
    rw [← opening around]
    show ((ts.take position).drop (place.start + 2))[k]? = _
    rw [List.getElem?_drop, List.getElem?_take_of_lt (by omega)]
    congr 1
    omega
  have behind : inner.drop (k + 1) = between ts (place.start + (k + 1)) position := by
    show ((ts.take position).drop (place.start + 2)).drop (k + 1) = _
    rw [List.drop_drop, between]
    congr 1
    omega
  have whole : inner = inner.take k ++ .operator .leftParen :: inner.drop (k + 1) := by
    obtain ⟨bound, same⟩ := List.getElem?_eq_some_iff.mp inside
    rw [← same, ← List.drop_eq_getElem_cons bound, List.take_append_drop]
  have sum : level inner = level (inner.take k) + (1 + level (inner.drop (k + 1))) :=
    (congrArg level whole).trans (level_append _ _)
  have before := level_nonneg holds.surrounds (List.take_prefix k inner)
  have after := level_nonneg around (List.prefix_refl _)
  rw [← behind] at after
  have total : level inner = 0 := holds.level_between.trans outside
  omega

theorem Holds.index_le (holds : place.Holds ts position arg) (also : other.Holds ts position otherArg)
    (sameStart : other.start = place.start) (sameCall : other.call = place.call) :
    place.index ≤ other.index := by
  refine Nat.le_of_not_lt fun later => ?_
  obtain ⟨k, past⟩ := Nat.exists_eq_add_of_lt later
  have here := holds.position_eq
  have there := also.position_eq
  have inside := also.inside
  have found := also.argument
  rw [sameStart, sameCall] at there
  rw [sameCall] at found
  have front : place.call.args.take (other.index + 1) =
      place.call.args.take other.index ++ [otherArg] := by
    rw [List.take_add_one, found]
    rfl
  have longer : place.call.argumentStart other.index + otherArg.length + 1 ≤
      place.call.argumentStart place.index := by
    rw [past, Call.argumentStart, Call.argumentStart, Nat.add_right_comm other.index k 1, List.take_add,
      front]
    simp only [inFront, List.flatMap_append, List.flatMap_singleton, List.length_append, List.length_singleton]
    omega
  omega

/-- A call holds a position in one of its arguments only. -/
theorem Holds.eq_of_start (holds : place.Holds ts position arg)
    (also : other.Holds ts position otherArg) (same : other.start = place.start) : other = place := by
  have sameCall : other.call = place.call :=
    Except.ok.inj (also.read.symm.trans ((congrArg (Call.readAt ts) same).trans holds.read))
  have sameIndex : other.index = place.index :=
    Nat.le_antisymm (also.index_le holds same.symm sameCall.symm) (holds.index_le also same sameCall)
  have here := holds.position_eq
  have there := also.position_eq
  rw [same, sameCall, sameIndex] at there
  have sameOffset : other.offset = place.offset := by omega
  cases place
  cases other
  exact Place.mk.injEq .. ▸ ⟨same, sameCall, sameIndex, sameOffset⟩

end Place

/-! ## The scan -/

/-- The place in a list of which the first was a part. -/
def Place.shift (place : Place) (front back : List Token) : Place :=
  { place with
    start := front.length + place.start
    call := { place.call with rest := place.call.rest ++ back } }

namespace FiltersLemmas

variable {stop : Token → Bool} {depth position index : Nat} {s t : Token}
  {ts front back behind arg first : List Token} {more : List (List Token)} {call : Call}
  {base : List Frame} {previous : Previous} {before : Option Token} {place : Place}

theorem startsCall_of_front (starts : startsCall ts = true) (back : List Token) :
    startsCall (ts ++ back) = true := by
  cases ts with
  | nil => exact absurd starts (by simp [startsCall])
  | cons name ts =>
    obtain ⟨isName, inner, rfl⟩ := startsCall_iff.mp starts
    exact startsCall_iff.mpr ⟨isName, inner ++ back, rfl⟩

/-- A place of a part is a place of the whole. -/
theorem holds_shift (holds : place.Holds ts position arg) (front back : List Token) :
    (place.shift front back).Holds (front ++ (ts ++ back)) (front.length + position) arg := by
  have starts : startsCall (ts.drop place.start) = true := holds.starts
  have nonempty : place.start ≤ ts.length := by
    have inside := holds.surrounds.opened
    have closing := holds.surrounds.closing
    omega
  have there : (front ++ (ts ++ back)).drop (front.length + place.start) = ts.drop place.start ++ back := by
    rw [List.drop_length_add_append, List.drop_append_of_le_length nonempty]
  refine ⟨?_, ?_, holds.argument, holds.inside, ?_⟩
  · show startsCall ((front ++ (ts ++ back)).drop (front.length + place.start)) = true
    rw [there]
    exact startsCall_of_front starts back
  · show Call.read ((front ++ (ts ++ back)).drop (front.length + place.start)) = _
    have read : Call.read (ts.drop place.start) = .ok place.call := holds.read
    rw [there]
    cases same : ts.drop place.start with
    | nil => exact absurd (same ▸ starts) (by simp [startsCall])
    | cons name inner =>
      rw [same] at starts read
      exact read_append starts read
  · show front.length + position =
      front.length + place.start + place.call.argumentStart place.index + place.offset
    rw [holds.position_eq]
    omega

/-- Where the position of a part is a place of a filter, it is one in the whole. -/
theorem exists_shift (found : ∃ place arg, Place.Holds place ts position arg ∧ place.Filters arg)
    (front back : List Token) :
    ∃ place arg, Place.Holds place (front ++ (ts ++ back)) (front.length + position) arg ∧
      place.Filters arg := by
  obtain ⟨place, arg, holds, aggregate, outside, split, parsed⟩ := found
  exact ⟨place.shift front back, arg, holds_shift holds front back, aggregate, outside, split, parsed⟩

/-- A clean scan comes to a `WHERE` in a call only. -/
theorem isCall_of_clause {frames : List Frame} (clean : Clean frames previous before (t :: ts))
    (keyword : t.isWhere = true) : frames.head?.any Frame.isCall = true := by
  cases clean with
  | clause _ inCall _ => exact inCall
  | operand isOperand _ _ => exact absurd (keyword.symm.trans (isWhere_of_isOperand isOperand)) (by simp)
  | _ => simp [Token.isWhere, Token.isKeyword] at keyword

/-- At a token that is no `WHERE` and starts no call the scan stays in the same call and enters or leaves
a group at most. -/
theorem exists_sound_tail
    (sound : Sound (List.replicate depth .group ++ base) previous before (s :: (ts ++ behind)))
    (closed : isClosed stop depth (s :: ts) = true) (noWhere : s.isWhere = false)
    (apart : ∀ name, before = some name → startsCall (name :: s :: (ts ++ behind)) = false)
    (plain : startsCall (s :: (ts ++ behind)) = false) :
    ∃ depth previous, Sound (List.replicate depth .group ++ base) previous (some s) (ts ++ behind) ∧
      isClosed stop depth ts = true := by
  obtain ⟨level, calls, clean⟩ := sound
  have inside : ∀ call ∈ callsIn (ts ++ behind), callErrors call = [] :=
    fun call mem => calls call (callsIn_subset_of_suffix (List.suffix_cons s _) mem)
  have stays (noParen : s.isParen = false) {next : Previous}
      (clean : Clean (List.replicate depth .group ++ base) next (some s) (ts ++ behind)) :
      ∃ depth previous, Sound (List.replicate depth .group ++ base) previous (some s) (ts ++ behind) ∧
        isClosed stop depth ts = true :=
    ⟨depth, next, ⟨((isClosed_cons noParen).mp level).2, inside, clean⟩,
      ((isClosed_cons noParen).mp closed).2⟩
  cases clean with
  | clause keyword => exact absurd (keyword.symm.trans noWhere) (by simp)
  | openCall call _ =>
    cases before with
    | none => exact absurd call (by simp [Frame.ofToken, Frame.isCall])
    | some name =>
      have isName : name.isCallName = true := by
        cases named : name.isCallName with
        | true => rfl
        | false => simp [Frame.ofToken, named, Frame.isCall] at call
      exact absurd (apart name rfl) (by simp [startsCall_iff.mpr ⟨isName, _, rfl⟩])
  | openGroup _ _ _ clean => exact ⟨depth + 1, _, ⟨level, inside, clean⟩, closed⟩
  | close _ clean =>
    obtain ⟨outer, rfl, closed⟩ := isClosed_rightParen.mp closed
    obtain ⟨_, length, level⟩ := isClosed_rightParen.mp level
    have outside : (List.replicate outer Frame.group ++ base).length = _ := Nat.succ.inj length
    exact ⟨outer, _, ⟨outside ▸ level, inside, clean⟩, closed⟩
  | comma _ _ clean => exact stays rfl clean
  | operator joins _ clean => exact stays (isParen_of_joins joins) clean
  | wildcard _ _ _ clean => exact stays rfl clean
  | function _ called _ => exact absurd (called.symm.trans plain) (by simp)
  | operand isOperand _ clean => exact stays (isParen_of_isOperand isOperand) clean

theorem noWhere_of_written {comparisons : List Comparison}
    (isWritten : Condition.IsWritten comparisons ts) (mem : t ∈ ts) : t.isWhere = false := by
  have literal {literal : Literal} {ts : List Token} (isWritten : literal.IsWritten ts) (mem : t ∈ ts) :
      t.isWhere = false := by
    cases isWritten <;> simp at mem
    · exact mem ▸ rfl
    · exact mem ▸ rfl
    · rcases mem with rfl | rfl <;> rfl
    · rcases mem with rfl | rfl <;> rfl
  have comparison {comparison : Comparison} {ts : List Token} (isWritten : comparison.IsWritten ts)
      (mem : t ∈ ts) : t.isWhere = false := by
    cases isWritten with
    | intro free _ isLiteral =>
      rcases List.mem_cons.mp mem with rfl | mem
      · exact (Bool.or_eq_false_iff.mp free).1
      · rcases List.mem_append.mp mem with mem | mem
        · obtain ⟨op, _, rfl⟩ := List.mem_map.mp mem
          rfl
        · exact literal isLiteral mem
  induction isWritten with
  | last isWritten => exact comparison isWritten mem
  | more isWritten keyword _ ih =>
    rcases List.mem_append.mp mem with mem | mem
    · exact comparison isWritten mem
    · rcases List.mem_cons.mp mem with rfl | mem
      · cases t with
        | field name =>
          have isAnd : Text.asciiUpper name = andWord := by simpa [Token.isAnd, Token.isKeyword] using keyword
          simp [Token.isWhere, Token.isKeyword, isAnd]
          decide
        | _ => rfl
      · exact ih mem

theorem exists_around_argument (starts : startsCall ts = true) (found : Call.read ts = .ok call)
    (argument : call.args[index]? = some arg) :
    ∃ front back, ts = front ++ (arg ++ back) ∧ front.length = call.argumentStart index := by
  obtain ⟨name, first, more, rfl, -, args⟩ := exists_written_call starts found
  have full : (first.isEmpty && more.isEmpty) ≠ true := by
    intro empty
    rw [args, if_pos empty] at argument
    exact absurd argument (by simp)
  rw [if_neg full] at args
  obtain ⟨back, whole, -⟩ := withCommas_eq (args ▸ argument)
  refine ⟨name :: .operator .leftParen :: inFront (call.args.take index),
    back ++ .operator .rightParen :: call.rest, by simp [whole, args], ?_⟩
  rw [List.length_cons, List.length_cons, Call.argumentStart]
  omega

/-- A `WHERE` in a list that starts with a call is in an argument or behind the call. -/
theorem position_of_call (starts : startsCall ts = true) (found : Call.read ts = .ok call)
    (here : ts[position]? = some t) (keyword : t.isWhere = true) :
    (∃ index arg offset, call.args[index]? = some arg ∧ arg[offset]? = some t ∧
      position = call.argumentStart index + offset) ∨
    ∃ front offset, ts = front ++ call.rest ∧ call.rest[offset]? = some t ∧
      position = front.length + offset := by
  obtain ⟨name, first, more, rfl, -, args⟩ := exists_written_call starts found
  obtain ⟨isName, -⟩ := startsCall_iff.mp starts
  rcases position with _ | _ | position
  · obtain rfl := Option.some.inj here
    cases name with
    | field word =>
      have free : isReserved word = false := by simpa [Token.isCallName] using isName
      exact absurd (keyword.symm.trans (Bool.or_eq_false_iff.mp free).1) (by simp)
    | _ => exact absurd keyword (by simp [Token.isWhere, Token.isKeyword])
  · obtain rfl := Option.some.inj here
    exact absurd keyword (by simp [Token.isWhere, Token.isKeyword])
  · rw [List.getElem?_cons_succ, List.getElem?_cons_succ] at here
    rcases Nat.lt_trichotomy position (withCommas first more).length with early | rfl | late
    · rw [List.getElem?_append_left early] at here
      obtain ⟨index, arg, offset, listed, inside, rfl⟩ :=
        exists_argument here (Token.isComma_of_isWhere keyword)
      have full : (first.isEmpty && more.isEmpty) ≠ true := by
        intro empty
        rw [Bool.and_eq_true, List.isEmpty_iff, List.isEmpty_iff] at empty
        obtain ⟨rfl, rfl⟩ := empty
        exact absurd early (by simp [withCommas])
      rw [if_neg full] at args
      refine .inl ⟨index, arg, offset, args ▸ listed, inside, ?_⟩
      rw [Call.argumentStart, args]
      omega
    · rw [List.getElem?_append_right (Nat.le_refl _), Nat.sub_self] at here
      obtain rfl := Option.some.inj here
      exact absurd keyword (by simp [Token.isWhere, Token.isKeyword])
    · obtain ⟨k, rfl⟩ : ∃ k, position = (withCommas first more).length + (k + 1) :=
        ⟨position - (withCommas first more).length - 1, by omega⟩
      rw [List.getElem?_append_right (by omega), Nat.add_sub_cancel_left, List.getElem?_cons_succ] at here
      refine .inr ⟨name :: .operator .leftParen :: (withCommas first more ++ [.operator .rightParen]), k,
        by simp, here, ?_⟩
      simp
      omega

/-- An argument that is split has its only `WHERE` outside the value where it is split. -/
theorem filters_of_split (starts : startsCall ts = true) (found : Call.read ts = .ok call)
    (errors : callErrors call = []) (argument : call.args[index]? = some arg) {value tokens : List Token}
    (split : splitWhere arg = some (value, tokens)) {offset : Nat} (here : arg[offset]? = some t)
    (keyword : t.isWhere = true) (behind : value.length ≤ offset) :
    ∃ place, Place.Holds place ts (call.argumentStart index + offset) arg ∧ place.Filters arg := by
  have mem : arg ∈ call.args := List.mem_of_getElem? argument
  obtain ⟨aggregate, -, condition, parsed⟩ := (of_callErrors errors mem).2 value tokens split
  have closed : isClosed Token.isComma 0 arg = true := by
    cases ts with
    | nil => exact absurd starts (by simp [startsCall])
    | cons name ts => exact isClosed_arg starts found mem
  obtain ⟨word, isWhere, rfl, valueClosed, -⟩ := splitWhereFrom_eq_some closed split
  have first : offset = value.length := by
    refine Nat.le_antisymm (Nat.le_of_not_lt fun later => ?_) behind
    obtain ⟨k, rfl⟩ : ∃ k, offset = value.length + (k + 1) := ⟨offset - value.length - 1, by omega⟩
    rw [List.getElem?_append_right behind, Nat.add_sub_cancel_left, List.getElem?_cons_succ] at here
    have noWhere := noWhere_of_written (Condition.written_of_parse parsed) (List.mem_of_getElem? here)
    exact absurd (noWhere.symm.trans keyword) (by simp)
  subst first
  have front : (value ++ word :: tokens).take value.length = value := by simp
  have back : (value ++ word :: tokens).drop (value.length + 1) = tokens := by
    rw [List.drop_length_add_append, List.drop_one, List.tail_cons]
  refine ⟨⟨0, call, index, value.length⟩, ⟨starts, found, argument, by simp, by simp⟩, aggregate, ?_, ?_, ?_⟩
  · show level ((value ++ word :: tokens).take value.length) = 0
    rw [front]
    exact (balanced_of_isClosed valueClosed).closed
  · show splitWhere _ = some (List.take value.length _, List.drop (value.length + 1) _)
    rw [front, back]
    exact split
  · show ∃ condition, Condition.parse (List.drop (value.length + 1) _) = .ok condition
    rw [back]
    exact ⟨condition, parsed⟩

end FiltersLemmas

open FiltersLemmas

/-- In a part of a sound list that no `WHERE` ends, or that is in no call, each `WHERE` is at a place of a
filter. -/
theorem exists_filter {stop : Token → Bool} {depth position : Nat} {t : Token} {ts behind : List Token}
    {base : List Frame} {previous : Previous} {before : Option Token}
    (closed : isClosed stop depth ts = true)
    (sound : Sound (List.replicate depth .group ++ base) previous before (ts ++ behind))
    (stops : base.head?.any Frame.isCall = true → ∀ t, t.isWhere = true → stop t = true)
    (apart : ∀ name, before = some name → startsCall (name :: (ts ++ behind)) = false)
    (next : behind.head? ≠ some (.operator .leftParen)) (here : ts[position]? = some t)
    (keyword : t.isWhere = true) :
    ∃ place arg, Place.Holds place ts position arg ∧ place.Filters arg := by
  -- On the length of the part: it goes on behind a call, inside one of its arguments, or one token on.
  induction length : ts.length using Nat.strongRecOn
    generalizing stop depth position ts behind base previous before with
  | ind n ih =>
  subst length
  cases ts with
  | nil => exact absurd here (by simp)
  | cons s ts =>
  cases starts : startsCall (s :: ts) with
  | false =>
    have plain : startsCall (s :: (ts ++ behind)) = false :=
      (startsCall_append (List.cons_ne_nil s ts) next).trans starts
    have noWhere : s.isWhere = false := by
      rw [Bool.eq_false_iff]
      intro isWhere
      have inCall := isCall_of_clause sound.clean isWhere
      cases depth with
      | zero =>
        have free := ((isClosed_cons (Token.isParen_of_isWhere isWhere)).mp closed).1 rfl
        exact absurd (free.symm.trans (stops inCall s isWhere)) (by simp)
      | succ depth => exact absurd inCall (by simp [List.replicate_succ, Frame.isCall])
    cases position with
    | zero =>
      obtain rfl := Option.some.inj here
      exact absurd (noWhere.symm.trans keyword) (by simp)
    | succ position =>
      obtain ⟨depth, previous, sound, closed⟩ := exists_sound_tail sound closed noWhere apart plain
      have apart : ∀ name, some s = some name → startsCall (name :: (ts ++ behind)) = false := by
        rintro _ ⟨⟩
        exact plain
      have found := exists_shift (ih _ (by simp) closed sound stops apart next here rfl) [s] []
      rw [List.append_nil] at found
      simpa [Nat.add_comm] using found
  | true =>
    obtain ⟨call, found, restClosed⟩ := exists_call starts closed
    obtain ⟨-, restSound, args⟩ :=
      sound.parts_of_call (startsCall_of_front starts behind) (read_append starts found)
    have checked := mem_callsIn (startsCall_of_front starts behind) (read_append starts found)
    have errors : callErrors call = [] := sound.calls { call with rest := [] } checked
    rcases position_of_call starts found here keyword with
      ⟨index, arg, offset, argument, inside, rfl⟩ | ⟨front, offset, written, inside, rfl⟩
    · have mem : arg ∈ call.args := List.mem_of_getElem? argument
      have shorter := (Call.length_of_read found).2 arg mem
      have argClosed := isClosed_arg starts found mem
      obtain ⟨front, back, whole, place⟩ := exists_around_argument starts found argument
      obtain ⟨before, closing, after, opens, ends, argSound⟩ := args arg mem
      have apart (ts : List Token) :
          ∀ name, before = some name → startsCall (name :: ts) = false := by
        rintro name rfl
        rw [Bool.eq_false_iff]
        intro starts
        simp [Frame.ofToken, (isCallName_of_startsCall starts).1] at opens
      cases split : splitWhere arg with
      | none =>
        have notOpen : (Token.operator closing :: after).head? ≠ some (.operator .leftParen) := by
          rcases ends with rfl | rfl <;> simp
        have deeper := ih _ shorter (splitWhereFrom_eq_none argClosed split) argSound
          (fun _ t isWhere => by simp [Token.endsArgument, isWhere]) (apart _) notOpen inside rfl
        rw [whole, ← place]
        exact exists_shift deeper front back
      | some parts =>
        obtain ⟨value, tokens⟩ := parts
        by_cases early : offset < value.length
        · obtain ⟨word, isWhere, rfl, valueClosed, -⟩ := splitWhereFrom_eq_some argClosed split
          have notOpen : (word :: (tokens ++ Token.operator closing :: after)).head? ≠
              some (.operator .leftParen) := by
            rintro ⟨⟩
            simp [Token.isWhere, Token.isKeyword] at isWhere
          rw [List.append_assoc] at argSound
          rw [List.getElem?_append_left early] at inside
          rw [List.length_append] at shorter
          have deeper := ih _ (by omega) valueClosed argSound
            (fun _ t isWhere => by simp [Token.endsArgument, isWhere]) (apart _) notOpen inside rfl
          rw [whole, ← place, List.append_assoc]
          exact exists_shift deeper front (word :: tokens ++ back)
        · obtain ⟨place, found⟩ := filters_of_split starts found errors argument split inside keyword
            (Nat.le_of_not_lt early)
          exact ⟨place, arg, found⟩
    · have shorter := Call.rest_lt found
      have apart : ∀ name, some (Token.operator .rightParen) = some name →
          startsCall (name :: (call.rest ++ behind)) = false := by
        rintro _ ⟨⟩
        exact startsCall_operator
      have rest := ih _ shorter restClosed restSound stops apart next inside rfl
      have found := exists_shift rest front []
      rwa [List.append_nil, ← written] at found

/-- In a well-formed list every `WHERE` starts the condition of an aggregate. It stands outside parentheses
in one argument of the innermost call around it and in no argument of another call. That call is to an
aggregate, the argument is split at that very token, and everything behind it in the argument is read as
its condition. -/
theorem where_is_filter {ts : List Token} (wellFormed : structuralErrors ts = []) {position : Nat}
    {t : Token} (here : ts[position]? = some t) (keyword : t.isWhere = true) :
    ∃ place arg, Place.Holds place ts position arg ∧ place.Filters arg ∧
      (∀ start call, Surrounds ts start call position → start ≤ place.start) ∧
      ∀ other otherArg, Place.Holds other ts position otherArg →
        (other.start = place.start ∨ level (otherArg.take other.offset) = 0) → other = place := by
  obtain ⟨-, sound⟩ := structuralErrors_eq_nil_iff.mp wellFormed
  have whole : Sound (List.replicate 0 .group ++ []) .start none (ts ++ []) := by simpa using sound
  obtain ⟨place, arg, holds, filters⟩ := exists_filter sound.closed whole (fun inCall => by simp at inCall)
    (fun _ same => by simp at same) (by simp) here keyword
  have innermost : ∀ start call, Surrounds ts start call position → start ≤ place.start :=
    fun _ _ => holds.start_le filters.outside
  refine ⟨place, arg, holds, filters, innermost, fun other otherArg also top => ?_⟩
  refine holds.eq_of_start also (top.elim id fun outside => ?_)
  exact Nat.le_antisymm (innermost _ _ also.surrounds) (also.start_le outside holds.surrounds)

/-- The tokens of `ROUND(SUM(amount WHERE dpd > 0), 2)`. -/
def roundedOverdue : List Token :=
  [.function "ROUND", .operator .leftParen, .function "SUM", .operator .leftParen, .field "amount",
    .field "WHERE", .field "dpd", .operator .greater, .number 0, .operator .rightParen, .operator .comma,
    .number 2, .operator .rightParen]

/-- The `WHERE` of an argument that is itself in an argument is the filter of the inner call. -/
theorem roundedOverdue_filters_in_sum :
    ∃ place arg, Place.Holds place roundedOverdue 5 arg ∧ place.Filters arg ∧
      (∀ start call, Surrounds roundedOverdue start call 5 → start ≤ place.start) ∧
      ∀ other otherArg, Place.Holds other roundedOverdue 5 otherArg →
        (other.start = place.start ∨ level (otherArg.take other.offset) = 0) → other = place :=
  where_is_filter (t := .field "WHERE") (by with_unfolding_all rfl) rfl (by with_unfolding_all rfl)

end RecordFormula
