import RecordFormula.Proofs.CallSpans
import RecordFormula.Proofs.FunctionNames

/-!
# Listing calls

The calls of a token list are listed in one pass over the tokens, whatever they are nested in. A call that is not
ended is left out, and where parentheses balance there is none.

`nestedSites` goes through the same calls as an evaluation does: a call, what is in its arguments, and then what is
behind it.

Results:
1. `callsIn_call`: the calls of a list that starts with one.
2. `callSites_eq_nestedSites`: the pass lists what an evaluation comes to, in the same order.
3. `isSiteAt_of_readAt`: what an entry says about its call.
4. `callSites_listed_once`: where parentheses balance, there is one entry for each place where a call starts.
-/

namespace RecordFormula

open NestingLemmas CallsLemmas FiltersLemmas ParenthesesLemmas CallSpansLemmas

/-- The entry of a call. -/
def Call.site (call : Call) : CallSite := { name := call.name, argCount := call.args.length }

/-- The calls of a token list by their nesting: those of the arguments are behind the call itself and in front of
what is behind the call. -/
def nestedSites : List Token → List CallSite
  | [] => []
  | t :: ts =>
    if startsCall (t :: ts) then
      match _read : Call.read (t :: ts) with
      | .ok call => call.site :: (call.args.attach.flatMap fun arg => nestedSites arg.1) ++ nestedSites call.rest
      | .error _ => nestedSites ts
    else nestedSites ts
termination_by ts => ts.length
decreasing_by
  · exact Call.arg_lt _read arg.2
  · exact Call.rest_lt _read
  · simp
  · simp

/-- The commas of a list outside its parentheses, where `depth` are open in front of it. -/
def outerCommas (depth : Int) : List Token → Nat
  | [] => 0
  | t :: ts => (if t.isComma = true ∧ depth = 0 then 1 else 0) + outerCommas (depth + t.change) ts

/-- What the entry of the call that starts at an index has to say: what the call is named, and how many arguments
stand between its parentheses. A function is named as its token has it, and a field in upper case. -/
structure IsSiteAt (ts : List Token) (index : Nat) (site : CallSite) : Prop where
  name : ts[index]? = some (.function site.name) ∨
    ∃ written, ts[index]? = some (.field written) ∧ site.name = Text.asciiUpper written
  argCount : ∃ closed, Partner ts (index + 1) closed ∧
    site.argCount = if closed = index + 2 then 0 else 1 + outerCommas 0 ((ts.take closed).drop (index + 2))

namespace CallSitesLemmas

variable {t : Token} {ts first : List Token} {more : List (List Token)}

/-! ## Nesting -/

theorem callsIn_operator (op : Operator) : callsIn (.operator op :: ts) = callsIn ts := by
  rw [callsIn, startsCall_operator]
  rfl

theorem callsIn_withCommas (closed : ∀ arg ∈ first :: more, isClosed Token.isComma 0 arg = true) :
    callsIn (withCommas first more) = (first :: more).flatMap callsIn := by
  induction more generalizing first with
  | nil => simp [withCommas]
  | cons second more ih =>
    obtain ⟨firstClosed, moreClosed⟩ := List.forall_mem_cons.mp closed
    rw [List.flatMap_cons, ← ih moreClosed, withCommas_cons, callsIn_append firstClosed (by simp),
      callsIn_operator]

theorem callsIn_of_not_starts (other : startsCall (t :: ts) = false) : callsIn (t :: ts) = callsIn ts := by
  rw [callsIn, other]
  rfl

theorem callsIn_of_unread {reason : ParseError} (unread : Call.read (t :: ts) = .error reason) :
    callsIn (t :: ts) = callsIn ts := by
  rw [callsIn, unread]
  split <;> rfl

end CallSitesLemmas

open CallSitesLemmas

/-- The calls of a list that starts with a call are that call, the calls in its arguments and those behind it. -/
theorem callsIn_call {t : Token} {ts : List Token} {call : Call} (starts : startsCall (t :: ts) = true)
    (found : Call.read (t :: ts) = .ok call) :
    callsIn (t :: ts) = { call with rest := [] } :: (call.args.flatMap callsIn ++ callsIn call.rest) := by
  obtain ⟨name, first, more, whole, closed, args⟩ := exists_written_call starts found
  obtain ⟨rfl, rfl⟩ := List.cons.inj whole
  have inArgs : call.args.flatMap callsIn = (first :: more).flatMap callsIn := by
    rw [args]
    split
    · rename_i empty
      rw [Bool.and_eq_true, List.isEmpty_iff, List.isEmpty_iff] at empty
      rw [empty.1, empty.2]
      rfl
    · rfl
  rw [callsIn, starts, if_pos rfl, found, callsIn_operator, callsIn_append (isClosed_withCommas closed) (by simp),
    callsIn_operator, callsIn_withCommas closed, inArgs]
  rfl

/-- The pass over a list lists the calls that an evaluation comes to, in the order of their nesting. -/
theorem callSites_eq_nestedSites (ts : List Token) : callSites ts = nestedSites ts := by
  rw [callSites_eq]
  show (callsIn ts).map Call.site = nestedSites ts
  fun_induction nestedSites ts with
  | case1 => rfl
  | case2 t ts starts call found args rest =>
    have inArgs : (call.args.flatMap callsIn).map Call.site =
        call.args.attach.flatMap fun arg => nestedSites arg.1 := by
      conv_lhs => rw [← List.attach_map_subtype_val call.args]
      rw [List.flatMap_map, List.map_flatMap]
      exact List.flatMap_congr fun arg _ => args arg
    rw [callsIn_call starts found, List.map_cons, List.map_append, inArgs, rest]
    rfl
  | case3 t ts starts reason found behind => rw [callsIn_of_unread found, behind]
  | case4 t ts other behind => rw [callsIn_of_not_starts (Bool.eq_false_iff.mpr other), behind]

/-! ## Places -/

namespace CallSitesLemmas

variable {stop : Token → Bool} {depth index : Nat} {t : Token} {ts first : List Token}
  {more : List (List Token)} {call : Call}

theorem callStarts_cons (t : Token) (ts : List Token) :
    callStarts (t :: ts) = (if startsCall (t :: ts) then [0] else []) ++ (callStarts ts).map Nat.succ := by
  rw [callStarts, List.length_cons, List.range_succ_eq_map, List.filter_cons, List.filter_map]
  show (if startsCall (t :: ts) then _ else _) = _
  split <;> rfl

/-- Where parentheses balance, an entry is listed for each place where a call starts, in order. -/
theorem forall₂_callSites (closed : isClosed stop depth ts = true) :
    List.Forall₂ (fun index site => ∃ call, Call.readAt ts index = .ok call ∧ site = call.site)
      (callStarts ts) (callSites ts) := by
  induction ts generalizing depth with
  | nil => exact .nil
  | cons t ts ih =>
    have behind : List.Forall₂ (fun index site => ∃ call, Call.readAt ts index = .ok call ∧ site = call.site)
        (callStarts ts) (callSites ts) := by
      rcases t.paren_cases with rfl | rfl | plain
      · exact ih (show isClosed stop (depth + 1) ts = true from closed)
      · obtain ⟨depth, rfl, tail⟩ := isClosed_rightParen.mp closed
        exact ih tail
      · exact ih ((isClosed_cons plain).mp closed).2
    have later : List.Forall₂ (fun index site => ∃ call, Call.readAt (t :: ts) index = .ok call ∧ site = call.site)
        ((callStarts ts).map Nat.succ) (callSites ts) :=
      List.forall₂_map_left_iff.mpr behind
    rw [callStarts_cons, callSites]
    cases starts : startsCall (t :: ts) with
    | false => exact later
    | true =>
      obtain ⟨call, found, -⟩ := exists_call starts closed
      simp only [if_true, found]
      exact .cons ⟨call, found, rfl⟩ later

/-! ## Entries -/

theorem outerCommas_append (depth : Int) (front back : List Token) :
    outerCommas depth (front ++ back) = outerCommas depth front + outerCommas (depth + level front) back := by
  induction front generalizing depth with
  | nil => simp [outerCommas]
  | cons t front ih =>
    rw [List.cons_append, outerCommas, outerCommas, ih, level_cons, Nat.add_assoc, Int.add_assoc]

theorem outerCommas_of_isClosed (closed : isClosed Token.isComma depth ts = true) :
    outerCommas depth ts = 0 := by
  induction ts generalizing depth with
  | nil => rfl
  | cons t ts ih =>
    rcases t.paren_cases with rfl | rfl | plain
    · have deeper : isClosed Token.isComma (depth + 1) ts = true := closed
      rw [outerCommas, if_neg (by simp [Token.isComma]), Nat.zero_add]
      exact ih deeper
    · obtain ⟨outer, rfl, closed⟩ := isClosed_rightParen.mp closed
      have level : ((outer + 1 : Nat) : Int) + Token.change (.operator .rightParen) = outer := by
        rw [Token.change]
        omega
      rw [outerCommas, if_neg (by simp [Token.isComma]), Nat.zero_add, level]
      exact ih closed
    · obtain ⟨inside, closed⟩ := (isClosed_cons plain).mp closed
      rw [outerCommas, change_of_plain plain, Int.add_zero, ih closed, if_neg]
      rintro ⟨comma, outside⟩
      exact absurd comma (by simp [inside (by omega)])

/-- Between the parentheses of a call there is a comma in front of each argument but the first. -/
theorem outerCommas_withCommas (closed : ∀ arg ∈ first :: more, isClosed Token.isComma 0 arg = true) :
    outerCommas 0 (withCommas first more) = more.length := by
  induction more generalizing first with
  | nil =>
    rw [withCommas, List.flatMap_nil, List.append_nil]
    exact outerCommas_of_isClosed (closed first List.mem_cons_self)
  | cons second more ih =>
    obtain ⟨firstClosed, moreClosed⟩ := List.forall_mem_cons.mp closed
    have level : level first = 0 := (balanced_of_isClosed firstClosed).closed
    have none : outerCommas 0 first = 0 := outerCommas_of_isClosed firstClosed
    rw [withCommas_cons, outerCommas_append, level, none, outerCommas, if_pos ⟨rfl, rfl⟩]
    show 0 + (1 + outerCommas 0 (withCommas second more)) = more.length + 1
    rw [ih moreClosed]
    omega

theorem length_args (closed : ∀ arg ∈ first :: more, isClosed Token.isComma 0 arg = true)
    (args : call.args = if first.isEmpty && more.isEmpty then [] else first :: more) :
    call.args.length =
      if withCommas first more = [] then 0 else 1 + outerCommas 0 (withCommas first more) := by
  have empty : withCommas first more = [] ↔ first = [] ∧ more = [] := by
    rw [withCommas, List.append_eq_nil_iff]
    cases more <;> simp
  rw [args, outerCommas_withCommas closed]
  by_cases none : first = [] ∧ more = []
  · rw [if_pos (by simp [none]), if_pos (empty.mpr none)]
    rfl
  · rw [if_neg (by simpa using none), if_neg (mt empty.mp none), List.length_cons, Nat.add_comm]

theorem name_of_readAt (starts : isCallStart ts index = true) (found : Call.readAt ts index = .ok call) :
    ts[index]? = some (.function call.name) ∨
      ∃ written, ts[index]? = some (.field written) ∧ call.name = Text.asciiUpper written := by
  rw [isCallStart] at starts
  rw [Call.readAt] at found
  rw [← List.head?_drop]
  generalize ts.drop index = target at starts found
  cases target with
  | nil => exact absurd starts (by simp [startsCall])
  | cons t target =>
    obtain ⟨inner, pieces, -, -, rfl⟩ := read_eq_ok starts found
    have named : t.isCallName = true := (startsCall_iff.mp starts).1
    cases t with
    | function name => exact .inl rfl
    | field written => exact .inr ⟨written, rfl, rfl⟩
    | _ => exact absurd named (by simp [Token.isCallName])

/-- The arguments of a call that is read stand between its parentheses. -/
theorem exists_partner_of_readAt (starts : isCallStart ts index = true)
    (found : Call.readAt ts index = .ok call) :
    ∃ first more, (∀ arg ∈ first :: more, isClosed Token.isComma 0 arg = true) ∧
      call.args = (if first.isEmpty && more.isEmpty then [] else first :: more) ∧
      Partner ts (index + 1) (index + 2 + (withCommas first more).length) ∧
      (ts.take (index + 2 + (withCommas first more).length)).drop (index + 2) = withCommas first more := by
  obtain ⟨t, first, more, whole, closed, args⟩ := exists_written_call starts found
  have opens : ts[index + 1]? = some (.operator .leftParen) := by
    rw [← List.getElem?_drop, whole]
    rfl
  have behind : ts.drop (index + 2) = withCommas first more ++ .operator .rightParen :: call.rest := by
    rw [← List.drop_drop, whole]
    rfl
  refine ⟨first, more, closed, args, ?_, ?_⟩
  · exact partner_of_balanced opens behind (balanced_of_isClosed (isClosed_withCommas closed))
  · rw [List.drop_take, behind, Nat.add_sub_cancel_left, List.take_left]

end CallSitesLemmas

/-- The entry of a call has the name in front of its parentheses, and the number of arguments that stand between
them. -/
theorem isSiteAt_of_readAt {ts : List Token} {index : Nat} {call : Call} (starts : isCallStart ts index = true)
    (found : Call.readAt ts index = .ok call) : IsSiteAt ts index call.site := by
  obtain ⟨first, more, closed, args, partner, between⟩ := exists_partner_of_readAt starts found
  refine ⟨name_of_readAt starts found, _, partner, ?_⟩
  have empty : index + 2 + (withCommas first more).length = index + 2 ↔ withCommas first more = [] := by
    rw [← List.length_eq_zero_iff]
    omega
  simp only [between, empty]
  exact length_args closed args

theorem IsSiteAt.asciiUpper_name {ts : List Token} {index : Nat} {site : CallSite} {expression : String}
    (isSite : IsSiteAt ts index site) (read : tokenize expression = .ok ts) :
    Text.asciiUpper site.name = site.name := by
  rcases isSite.name with here | ⟨written, -, upper⟩
  · exact asciiUpper_of_tokenize read (List.mem_of_getElem? here)
  · rw [upper, SignaturesLemmas.asciiUpper_asciiUpper]

/-- Where parentheses balance, the calls of a list are listed once each, in the order in which they start: there is
one entry for each place where a call starts, with the name of the call and the number of its arguments. In the
tokens of a text the names have their ASCII letters in upper case. The list is that of the calls by their nesting. -/
theorem callSites_listed_once {ts : List Token} (balanced : parensBalanced ts = true) :
    List.Forall₂ (IsSiteAt ts) (callStarts ts) (callSites ts) ∧
      (∀ expression, tokenize expression = .ok ts →
        ∀ site ∈ callSites ts, Text.asciiUpper site.name = site.name) ∧
      callSites ts = nestedSites ts := by
  have entries : List.Forall₂ (IsSiteAt ts) (callStarts ts) (callSites ts) := by
    have starts : ∀ index ∈ callStarts ts, isCallStart ts index = true :=
      fun index mem => (List.mem_filter.mp mem).2
    refine ((List.forall₂_and_left _ _).mpr ⟨starts, forall₂_callSites (parensBalanced_iff.mp balanced)⟩).imp ?_
    rintro index site ⟨starts, call, found, rfl⟩
    exact isSiteAt_of_readAt starts found
  refine ⟨entries, fun expression read site mem => ?_, callSites_eq_nestedSites ts⟩
  obtain ⟨i, bound, rfl⟩ := List.getElem_of_mem mem
  have isSite := (List.forall₂_iff_get.mp entries).2 i (entries.length_eq ▸ bound) bound
  exact isSite.asciiUpper_name read

/-- The tokens of a choice with a group and two calls in its arguments, and of a call with an empty argument. -/
def choiceOfRatios : List Token :=
  [.function "IF", .operator .leftParen, .operator .leftParen, .field "paid", .operator .comma, .field "due",
    .operator .rightParen, .operator .comma, .function "RATIO", .operator .leftParen, .field "due",
    .operator .comma, .field "paid", .operator .rightParen, .operator .comma, .function "COUNT",
    .operator .leftParen, .operator .rightParen, .operator .rightParen, .operator .plus, .field "limit",
    .operator .leftParen, .field "due", .operator .comma, .operator .rightParen]

/-- The comma in the group does not count for the choice, and neither does the one of the call in it. -/
theorem choiceOfRatios_has_four_calls :
    tokenize "if((paid, due), Ratio(due, paid), count()) + limit(due,)" = .ok choiceOfRatios ∧
      parensBalanced choiceOfRatios = true ∧
      List.Forall₂ (IsSiteAt choiceOfRatios) [0, 8, 15, 20] [⟨"IF", 3⟩, ⟨"RATIO", 2⟩, ⟨"COUNT", 0⟩, ⟨"LIMIT", 2⟩] ∧
      Text.asciiUpper "LIMIT" = "LIMIT" ∧
      nestedSites choiceOfRatios = [⟨"IF", 3⟩, ⟨"RATIO", 2⟩, ⟨"COUNT", 0⟩, ⟨"LIMIT", 2⟩] := by
  have read : tokenize "if((paid, due), Ratio(due, paid), count()) + limit(due,)" = .ok choiceOfRatios := by
    with_unfolding_all rfl
  have balanced : parensBalanced choiceOfRatios = true := rfl
  have sites : callSites choiceOfRatios = [⟨"IF", 3⟩, ⟨"RATIO", 2⟩, ⟨"COUNT", 0⟩, ⟨"LIMIT", 2⟩] := rfl
  obtain ⟨entries, upper, nested⟩ := callSites_listed_once balanced
  rw [sites] at entries nested upper
  refine ⟨read, balanced, entries, ?_, nested.symm⟩
  exact upper _ read ⟨"LIMIT", 2⟩ (by simp)

/-- A function is listed as its token has it, in lower case too. A text writes none in lower case, but it can write
`ſ`, which is `S` in upper case. -/
theorem functionCalls_keep_their_letters :
    let lower : List Token := [.function "sum", .operator .leftParen, .operator .rightParen]
    let long : List Token := [.function "ſUM", .operator .leftParen, .field "amount", .operator .rightParen]
    (parensBalanced lower = true ∧ callStarts lower = [0] ∧ callSites lower = [⟨"sum", 0⟩] ∧
        Text.asciiUpper "sum" = "SUM") ∧
      tokenize "ſum(amount)" = .ok long ∧ parensBalanced long = true ∧ callStarts long = [0] ∧
        callSites long = [⟨"ſUM", 1⟩] ∧ Text.uppercase "ſUM" = "SUM" := by
  intro lower long
  have read : tokenize "ſum(amount)" = .ok long := by with_unfolding_all rfl
  exact ⟨⟨rfl, rfl, rfl, by decide⟩, read, rfl, rfl, rfl, by decide +kernel⟩

end RecordFormula
