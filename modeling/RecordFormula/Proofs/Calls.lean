import RecordFormula.Proofs.Nesting

/-!
# Calls of a token list

A call in an argument is also a call of the whole list. `callsIn` lists all of them, and where
parentheses balance each of them can be read.

Results:
1. `exists_call`: where parentheses balance, a call that starts can be read to its end.
2. `callsIn_append`: the calls of a closed list do not depend on what is behind it.
3. `callsIn_arg`: the calls of an argument are calls of the list.
4. `allCallErrors_eq`: the errors of calls are the errors of each one.
-/

namespace RecordFormula

open NestingLemmas

/-- The name of the call that a token names. -/
def Token.callName : Token → String
  | .function name => name
  | .field name => Text.asciiUpper name
  | _ => ""

/-- Every call that can be read in a token list, without what is behind it. -/
def callsIn : List Token → List Call
  | [] => []
  | t :: ts =>
    (if startsCall (t :: ts) then
      match Call.read (t :: ts) with
      | .ok call => [{ call with rest := [] }]
      | .error _ => []
    else []) ++ callsIn ts

namespace CallsLemmas

variable {stop : Token → Bool} {depth : Nat} {t : Token} {ts back : List Token} {call : Call}

/-- What is found is in the table of the built-in functions, under the upper case of the name. -/
theorem of_find? {name : String} {spec : FunctionSpec} (found : Catalog.standard.find? name = some spec) :
    spec ∈ Catalog.standardFunctions ∧ Text.uppercase name = spec.name := by
  obtain ⟨before, behind, whole, -⟩ := List.lookup_eq_some_iff.mp found
  have mem : (Text.uppercase name, spec) ∈ Catalog.standard.entries := by simp [whole]
  obtain ⟨known, isKnown, same⟩ := List.mem_map.mp mem
  obtain ⟨key, rfl⟩ := Prod.mk.inj same
  exact ⟨isKnown, key.symm⟩

theorem mem_of_find? {name : String} {spec : FunctionSpec}
    (found : Catalog.standard.find? name = some spec) : spec ∈ Catalog.standardFunctions :=
  (of_find? found).1

theorem startsCall_iff :
    startsCall (t :: ts) = true ↔
      t.isCallName = true ∧ ∃ inner, ts = .operator .leftParen :: inner := by
  constructor
  · intro call
    unfold startsCall at call
    split at call
    · rename_i name inner same
      obtain ⟨rfl, rfl⟩ := List.cons.inj same
      exact ⟨call, inner, rfl⟩
    · exact absurd call (by simp)
  · rintro ⟨name, inner, rfl⟩
    exact name

theorem startsCall_operator {op : Operator} : startsCall (.operator op :: ts) = false := by
  cases starts : startsCall (.operator op :: ts) with
  | false => rfl
  | true => exact absurd (startsCall_iff.mp starts).1 (by simp [Token.isCallName])

theorem isParen_of_isCallName (name : t.isCallName = true) : t.isParen = false := by
  cases t with
  | operator op => simp [Token.isCallName] at name
  | _ => rfl

theorem startsCall_append {front : List Token} (full : front ≠ [])
    (next : back.head? ≠ some (.operator .leftParen)) :
    startsCall (front ++ back) = startsCall front := by
  cases front with
  | nil => exact absurd rfl full
  | cons t front =>
    rw [List.cons_append, Bool.eq_iff_iff, startsCall_iff, startsCall_iff]
    cases front with
    | nil =>
      constructor
      · rintro ⟨_, inner, rfl⟩
        exact absurd rfl next
      · rintro ⟨_, inner, empty⟩
        exact absurd empty (by simp)
    | cons s front => simp

theorem read_eq (name : t.isCallName = true) :
    Call.read (t :: .operator .leftParen :: ts) =
      match Pieces.read? 0 ts with
      | some pieces => .ok { name := t.callName, args := pieces.args, rest := pieces.rest }
      | none => .error .unbalancedParentheses := by
  cases t with
  | function name => rfl
  | field name => rfl
  | _ => simp [Token.isCallName] at name

end CallsLemmas

open CallsLemmas

theorem read_eq_ok {t : Token} {ts : List Token} {call : Call}
    (starts : startsCall (t :: ts) = true) (found : Call.read (t :: ts) = .ok call) :
    ∃ inner pieces, ts = .operator .leftParen :: inner ∧ Pieces.read? 0 inner = some pieces ∧
      call = { name := t.callName, args := pieces.args, rest := pieces.rest } := by
  obtain ⟨name, inner, rfl⟩ := startsCall_iff.mp starts
  rw [read_eq name] at found
  cases read : Pieces.read? 0 inner with
  | none => simp [read] at found
  | some pieces =>
    simp only [read, Except.ok.injEq] at found
    exact ⟨inner, pieces, rfl, read, found.symm⟩

/-- Where parentheses balance, a call that starts can be read, and they balance behind it too. -/
theorem exists_call {stop : Token → Bool} {depth : Nat} {t : Token} {ts : List Token}
    (starts : startsCall (t :: ts) = true) (closed : isClosed stop depth (t :: ts) = true) :
    ∃ call, Call.read (t :: ts) = .ok call ∧ isClosed stop depth call.rest = true := by
  obtain ⟨name, inner, rfl⟩ := startsCall_iff.mp starts
  have tail : isClosed stop (depth + 1 + 0) inner = true :=
    ((isClosed_cons (isParen_of_isCallName name)).mp closed).2
  obtain ⟨pieces, found, rest⟩ := exists_read? tail
  exact ⟨_, by rw [read_eq name, found], rest⟩

theorem isClosed_arg {t : Token} {ts arg : List Token} {call : Call}
    (starts : startsCall (t :: ts) = true) (found : Call.read (t :: ts) = .ok call)
    (mem : arg ∈ call.args) : isClosed Token.isComma 0 arg = true := by
  obtain ⟨inner, pieces, rfl, read, rfl⟩ := read_eq_ok starts found
  exact isClosed_of_mem_pieces read (Pieces.mem_of_mem_args mem)

theorem mem_callsIn {t : Token} {ts : List Token} {call : Call}
    (starts : startsCall (t :: ts) = true) (found : Call.read (t :: ts) = .ok call) :
    { call with rest := [] } ∈ callsIn (t :: ts) := by
  rw [callsIn, starts, if_pos rfl, found]
  exact List.mem_append_left _ (List.mem_singleton.mpr rfl)

theorem rest_suffix {t : Token} {ts : List Token} {call : Call}
    (starts : startsCall (t :: ts) = true) (found : Call.read (t :: ts) = .ok call) :
    call.rest <:+ t :: ts := by
  obtain ⟨inner, pieces, rfl, read, rfl⟩ := read_eq_ok starts found
  obtain ⟨-, -, whole⟩ := read?_eq_some_iff.mp read
  rw [whole]
  exact ⟨t :: .operator .leftParen :: withCommas pieces.first pieces.more ++
    [.operator .rightParen], by simp⟩

/-- An argument stands in the list, and no parenthesis opens behind it. -/
theorem exists_behind_arg {t : Token} {ts arg : List Token} {call : Call}
    (starts : startsCall (t :: ts) = true) (found : Call.read (t :: ts) = .ok call)
    (mem : arg ∈ call.args) :
    ∃ behind, arg ++ behind <:+ t :: ts ∧ behind.head? ≠ some (.operator .leftParen) := by
  obtain ⟨inner, pieces, rfl, read, rfl⟩ := read_eq_ok starts found
  obtain ⟨before, closing, after, rfl, ends⟩ :=
    exists_around_arg read (Pieces.mem_of_mem_args mem)
  refine ⟨.operator closing :: after, ⟨t :: .operator .leftParen :: before, by simp⟩, ?_⟩
  rcases ends with rfl | rfl <;> simp

/-- The value in front of a `WHERE` stands in the argument, and no parenthesis opens behind it. -/
theorem exists_behind_value {arg value tokens : List Token}
    (closed : isClosed Token.isComma 0 arg = true)
    (split : splitWhere arg = some (value, tokens)) :
    ∃ behind, value ++ behind = arg ∧ behind.head? ≠ some (.operator .leftParen) := by
  obtain ⟨keyword, isWhere, rfl, -⟩ := splitWhereFrom_eq_some closed split
  refine ⟨keyword :: tokens, rfl, ?_⟩
  rintro ⟨⟩
  simp [Token.isWhere, Token.isKeyword] at isWhere

/-- A call is read in the same way whatever is behind it. -/
theorem read_append {t : Token} {ts back : List Token} {call : Call}
    (starts : startsCall (t :: ts) = true) (found : Call.read (t :: ts) = .ok call) :
    Call.read (t :: ts ++ back) = .ok { call with rest := call.rest ++ back } := by
  obtain ⟨inner, pieces, rfl, read, rfl⟩ := read_eq_ok starts found
  obtain ⟨first, more, whole⟩ := read?_eq_some_iff.mp read
  have longer : Pieces.read? 0 (inner ++ back) =
      some { pieces with rest := pieces.rest ++ back } :=
    read?_eq_some_iff.mpr ⟨first, more, by rw [whole]; simp⟩
  rw [List.cons_append, List.cons_append, read_eq (startsCall_iff.mp starts).1, longer]
  rfl

/-- The calls of a closed list are read without what is behind it. -/
theorem callsIn_append {stop : Token → Bool} {depth : Nat} {front back : List Token}
    (closed : isClosed stop depth front = true)
    (next : back.head? ≠ some (.operator .leftParen)) :
    callsIn (front ++ back) = callsIn front ++ callsIn back := by
  induction front generalizing depth with
  | nil => rfl
  | cons t ts ih =>
    have behind : callsIn (ts ++ back) = callsIn ts ++ callsIn back := by
      rcases t.paren_cases with rfl | rfl | plain
      · exact ih (show isClosed stop (depth + 1) ts = true from closed)
      · obtain ⟨depth, rfl, tail⟩ := isClosed_rightParen.mp closed
        exact ih tail
      · exact ih ((isClosed_cons plain).mp closed).2
    rw [List.cons_append, callsIn, callsIn, behind, List.append_assoc]
    refine congrArg (· ++ _) ?_
    rw [← List.cons_append, startsCall_append (List.cons_ne_nil _ _) next]
    cases starts : startsCall (t :: ts) with
    | false => rfl
    | true =>
      obtain ⟨call, found, -⟩ := exists_call starts closed
      rw [read_append starts found, found]

theorem callsIn_subset_of_suffix {ts whole : List Token} (suffix : ts <:+ whole) :
    callsIn ts ⊆ callsIn whole := by
  obtain ⟨front, rfl⟩ := suffix
  induction front with
  | nil => exact fun _ mem => mem
  | cons t front ih => exact fun call mem => List.mem_append_right _ (ih mem)

/-- The calls of an argument are calls of the list. -/
theorem callsIn_arg {t : Token} {ts arg : List Token} {call : Call}
    (starts : startsCall (t :: ts) = true) (found : Call.read (t :: ts) = .ok call)
    (mem : arg ∈ call.args) : callsIn arg ⊆ callsIn (t :: ts) := by
  obtain ⟨behind, suffix, next⟩ := exists_behind_arg starts found mem
  refine List.Subset.trans ?_ (callsIn_subset_of_suffix suffix)
  rw [callsIn_append (isClosed_arg starts found mem) next]
  exact List.subset_append_left _ _

theorem callsIn_value {arg value tokens : List Token}
    (closed : isClosed Token.isComma 0 arg = true)
    (split : splitWhere arg = some (value, tokens)) : callsIn value ⊆ callsIn arg := by
  obtain ⟨keyword, -, -, before, -⟩ := splitWhereFrom_eq_some closed split
  obtain ⟨behind, rfl, next⟩ := exists_behind_value closed split
  rw [callsIn_append before next]
  exact List.subset_append_left _ _

/-- Where parentheses balance, the errors of the calls are the errors of each of them. -/
theorem allCallErrors_eq {stop : Token → Bool} {depth : Nat} {ts : List Token}
    (closed : isClosed stop depth ts = true) :
    allCallErrors ts = (callsIn ts).flatMap callErrors := by
  induction ts generalizing depth with
  | nil => rfl
  | cons t ts ih =>
    have behind : allCallErrors ts = (callsIn ts).flatMap callErrors := by
      rcases t.paren_cases with rfl | rfl | plain
      · exact ih (show isClosed stop (depth + 1) ts = true from closed)
      · obtain ⟨depth, rfl, tail⟩ := isClosed_rightParen.mp closed
        exact ih tail
      · exact ih ((isClosed_cons plain).mp closed).2
    rw [allCallErrors, callsIn, behind, List.flatMap_append]
    refine congrArg (· ++ _) ?_
    cases starts : startsCall (t :: ts) with
    | false => rfl
    | true =>
      obtain ⟨call, found, -⟩ := exists_call starts closed
      simp only [if_true, found, List.flatMap_singleton]
      rfl

/-- The calls of a token list are listed by their names and the numbers of their arguments. -/
theorem callSites_eq (ts : List Token) :
    callSites ts = (callsIn ts).map fun call => ⟨call.name, call.args.length⟩ := by
  induction ts with
  | nil => rfl
  | cons t ts ih =>
    rw [callSites, callsIn, ih]
    cases starts : startsCall (t :: ts) with
    | false => rfl
    | true => cases found : Call.read (t :: ts) <;> rfl

end RecordFormula
