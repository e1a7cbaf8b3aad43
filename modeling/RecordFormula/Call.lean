import RecordFormula.Token

/-! # Calls

A call is a name followed by parentheses. Its arguments are the token lists between the commas that
stand in no inner parentheses; `F()` has none, while `F(a,)` has two, the second empty. Calls are read
off a flat token list, so a call in an argument is also a call of the whole list. `Call.rest_lt` says
that a call is not empty, which is why evaluation ends.
-/

namespace RecordFormula

/-- A call at the head of a token list. -/
structure Call where
  name : String
  args : List (List Token)
  /-- The tokens behind the closing parenthesis. -/
  rest : List Token
deriving BEq, Repr

/-- Whether a token list starts with a call. -/
def startsCall : List Token → Bool
  | name :: .operator .leftParen :: _ => name.isCallName
  | _ => false

/-- Whether a call starts at an index. -/
def isCallStart (ts : List Token) (index : Nat) : Bool := startsCall (ts.drop index)

/-- The tokens up to a closing parenthesis, cut at the commas, and what is behind. -/
structure Pieces where
  first : List Token
  more : List (List Token)
  rest : List Token
deriving BEq, Repr

namespace Pieces

/-- One more token in front. -/
def cons (t : Token) (pieces : Pieces) : Pieces := { pieces with first := t :: pieces.first }

/-- The arguments: a single empty piece is none. -/
def args (pieces : Pieces) : List (List Token) :=
  if pieces.first.isEmpty && pieces.more.isEmpty then [] else pieces.first :: pieces.more

/-- Reads up to the parenthesis that closes the call; `depth` counts the parentheses open inside. -/
def read? (depth : Nat) : List Token → Option Pieces
  | [] => none
  | t :: ts =>
    match t with
    | .operator .leftParen => (read? (depth + 1) ts).map (cons t)
    | .operator .rightParen =>
      if depth = 0 then some { first := [], more := [], rest := ts }
      else (read? (depth - 1) ts).map (cons t)
    | .operator .comma =>
      if depth = 0 then
        (read? depth ts).map fun pieces =>
          { pieces with first := [], more := pieces.first :: pieces.more }
      else (read? depth ts).map (cons t)
    | t => (read? depth ts).map (cons t)

end Pieces

namespace Call

/-- Reads the arguments of a call whose name has been read. -/
def readArguments (name : String) : List Token → Except ParseError Call
  | .operator .leftParen :: ts =>
    match Pieces.read? 0 ts with
    | some pieces => .ok { name, args := pieces.args, rest := pieces.rest }
    | none => .error .unbalancedParentheses
  | _ => .error (.incomplete (.arguments name))

/-- The call at the head of a token list. A call by a field name is a call by that name in upper
case. -/
def read : List Token → Except ParseError Call
  | [] => .error (.incomplete .functionName)
  | .function name :: ts => readArguments name ts
  | .field name :: ts => readArguments (Text.asciiUpper name) ts
  | t :: _ => .error (.unexpectedToken t.display)

/-- The call that starts at an index. -/
def readAt (ts : List Token) (index : Nat) : Except ParseError Call := read (ts.drop index)

end Call

theorem Pieces.length_of_read? {ts : List Token} {depth : Nat} {pieces : Pieces}
    (found : Pieces.read? depth ts = some pieces) :
    pieces.rest.length < ts.length ∧ ∀ arg ∈ pieces.first :: pieces.more, arg.length < ts.length := by
  induction ts generalizing depth pieces with
  | nil => simp [read?] at found
  | cons t ts ih =>
    have extend {depth : Nat} {pieces : Pieces}
        (found : (Pieces.read? depth ts).map (Pieces.cons t) = some pieces) :
        pieces.rest.length < (t :: ts).length ∧
          ∀ arg ∈ pieces.first :: pieces.more, arg.length < (t :: ts).length := by
      obtain ⟨inner, innerFound, rfl⟩ := Option.map_eq_some_iff.mp found
      obtain ⟨restShort, argsShort⟩ := ih innerFound
      simp only [List.mem_cons, forall_eq_or_imp, cons, List.length_cons] at argsShort ⊢
      refine ⟨by omega, by omega, fun arg mem => ?_⟩
      have := argsShort.2 arg mem
      omega
    unfold Pieces.read? at found
    split at found
    · exact extend found
    · split at found
      · simp only [Option.some.injEq] at found
        simp [← found]
      · exact extend found
    · split at found
      · obtain ⟨inner, innerFound, rfl⟩ := Option.map_eq_some_iff.mp found
        obtain ⟨restShort, argsShort⟩ := ih innerFound
        simp only [List.mem_cons, List.length_cons] at argsShort ⊢
        refine ⟨by omega, fun arg mem => ?_⟩
        rcases mem with rfl | mem
        · simp
        · have := argsShort arg mem
          omega
      · exact extend found
    · exact extend found

theorem Pieces.mem_of_mem_args {pieces : Pieces} {arg : List Token} (mem : arg ∈ pieces.args) :
    arg ∈ pieces.first :: pieces.more := by
  unfold Pieces.args at mem
  split at mem
  · simp at mem
  · exact mem

theorem Call.length_of_readArguments {name : String} {ts : List Token} {call : Call}
    (found : Call.readArguments name ts = .ok call) :
    call.rest.length < ts.length ∧ ∀ arg ∈ call.args, arg.length < ts.length := by
  unfold Call.readArguments at found
  split at found
  · split at found
    · rename_i pieces piecesFound
      simp only [Except.ok.injEq] at found
      obtain ⟨restShort, argsShort⟩ := Pieces.length_of_read? piecesFound
      subst found
      simp only [List.length_cons]
      refine ⟨by omega, fun arg mem => ?_⟩
      have := argsShort arg (Pieces.mem_of_mem_args mem)
      omega
    · simp at found
  · simp at found

theorem Call.length_of_read {ts : List Token} {call : Call} (found : Call.read ts = .ok call) :
    call.rest.length < ts.length ∧ ∀ arg ∈ call.args, arg.length < ts.length := by
  have behind {name : String} {t : Token} {ts : List Token} {call : Call}
      (found : Call.readArguments name ts = .ok call) :
      call.rest.length < (t :: ts).length ∧ ∀ arg ∈ call.args, arg.length < (t :: ts).length := by
    obtain ⟨restShort, argsShort⟩ := Call.length_of_readArguments found
    simp only [List.length_cons]
    refine ⟨by omega, fun arg mem => ?_⟩
    have := argsShort arg mem
    omega
  unfold Call.read at found
  split at found
  · simp at found
  · exact behind found
  · exact behind found
  · simp at found

/-- What is behind a call is shorter than the list that starts with it. -/
theorem Call.rest_lt {ts : List Token} {call : Call} (found : Call.read ts = .ok call) :
    call.rest.length < ts.length := (Call.length_of_read found).1

/-- An argument is shorter than the list that starts with the call. -/
theorem Call.arg_lt {ts : List Token} {call : Call} (found : Call.read ts = .ok call)
    {arg : List Token} (mem : arg ∈ call.args) : arg.length < ts.length :=
  (Call.length_of_read found).2 arg mem

/-- A call and the number of its arguments. -/
structure CallSite where
  name : String
  argCount : Nat
deriving DecidableEq, Repr

/-- Every call of a token list that has its closing parenthesis, outer calls before inner ones. -/
def callSites : List Token → List CallSite
  | [] => []
  | t :: ts =>
    let sites := callSites ts
    if startsCall (t :: ts) then
      match Call.read (t :: ts) with
      | .ok call => { name := call.name, argCount := call.args.length } :: sites
      | .error _ => sites
    else sites

/-- The indexes at which calls start, in order. -/
def callStarts (ts : List Token) : List Nat := (List.range ts.length).filter (isCallStart ts)

end RecordFormula
