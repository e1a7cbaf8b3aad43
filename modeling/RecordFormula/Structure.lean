import RecordFormula.Condition
import RecordFormula.Call

/-! # Structure

A token list is well formed when its parentheses are balanced, its calls have proper arguments and
conditions, and operands and operators alternate. `structuralErrors` lists everything that is wrong:
first with each call in order, then, in one scan, with the sequence of tokens. The scan knows what the
token before leaves it expecting and which parentheses are open; a condition is passed over, since the
check of its call covers it.
-/

namespace RecordFormula

/-- The errors of one argument of a call: `index` is its place and `last` that of the last one. -/
def argumentErrors (call : Call) (index last : Nat) (arg : List Token) : List ParseError :=
  if arg.isEmpty then
    [if index = 0 then .leadingComma call.name
      else if index = last then .trailingComma call.name
      else .emptyArgument call.name]
  else
    match splitWhere arg with
    | none => []
    | some (value, condition) =>
      if !(Catalog.standard.find? call.name).any (·.mode == .aggregate) then
        [.invalidCondition (.outsideAggregate call.name)]
      else
        (if value.isEmpty && call.name != "COUNT" then
          [.invalidCondition (.missingValue call.name)] else []) ++
        match Condition.parse condition with
        | .ok _ => []
        | .error error => [error]

/-- The errors of a call's arguments. Only a function that needs none may be called without. -/
def callErrors (call : Call) : List ParseError :=
  if call.args.isEmpty then
    if (Catalog.standard.find? call.name).any fun spec => decide (0 < spec.arity.min) then
      [.emptyCall call.name]
    else []
  else call.args.zipIdx.flatMap fun (arg, index) =>
    argumentErrors call index (call.args.length - 1) arg

/-- The errors of every call in a token list, in the order in which the calls start. -/
def allCallErrors : List Token → List ParseError
  | [] => []
  | t :: ts =>
    (if startsCall (t :: ts) then
      match Call.read (t :: ts) with
      | .ok call => callErrors call
      | .error error => [error]
    else []) ++ allCallErrors ts

/-- What the token before leaves a scan expecting. -/
inductive Previous where
  /-- Nothing yet, or `(` or `,`: an operand must come. -/
  | start
  /-- An operand is complete. -/
  | operand
  /-- An operator wants its right side; `paired` if it is two operators already. -/
  | operator (op : Operator) (paired : Bool)
deriving DecidableEq, Repr

/-- An open parenthesis. -/
inductive Frame where
  | call (isCount : Bool)
  | group
deriving DecidableEq, Repr

namespace Frame

def isCall : Frame → Bool
  | .call _ => true
  | .group => false

/-- The frame that a parenthesis opens behind a token. -/
def ofToken : Option Token → Frame
  | some t => if t.isCallName then .call (match t with | .function name => name == "COUNT" | _ => false)
    else .group
  | none => .group

end Frame

/-- The tokens from the comma or parenthesis on that ends an argument; `depth` counts the
parentheses open inside it. -/
def argumentEnd (depth : Nat) : List Token → List Token
  | [] => []
  | t :: ts =>
    match t with
    | .operator .leftParen => argumentEnd (depth + 1) ts
    | .operator .rightParen => if depth = 0 then t :: ts else argumentEnd (depth - 1) ts
    | .operator .comma => if depth = 0 then t :: ts else argumentEnd depth ts
    | _ => argumentEnd depth ts

theorem length_argumentEnd_le (depth : Nat) (ts : List Token) :
    (argumentEnd depth ts).length ≤ ts.length := by
  induction ts generalizing depth with
  | nil => exact Nat.le_refl _
  | cons t ts ih =>
    unfold argumentEnd
    split
    · exact Nat.le_succ_of_le (ih _)
    · split
      · exact Nat.le_refl _
      · exact Nat.le_succ_of_le (ih _)
    · split
      · exact Nat.le_refl _
      · exact Nat.le_succ_of_le (ih _)
    · exact Nat.le_succ_of_le (ih _)

/-- Whether the value of an argument ends before these tokens. -/
def endsValue : List Token → Bool
  | .operator .rightParen :: _ => true
  | .operator .comma :: _ => true
  | t :: _ => t.isWhere
  | [] => false

/-- An operator other than parentheses, comma and point: what it leaves a scan expecting, and its
error if there is one. `before` and `after` are the tokens around it, `frame` the parenthesis that is
open. -/
def operatorStep (op : Operator) (previous : Previous) (frame : Option Frame) (before : Option Token)
    (after : List Token) : Previous × List ParseError :=
  match previous with
  | .operand => (.operator op false, [])
  | .start =>
    if op = .star ∧ frame = some (.call true) ∧ before.any (·.operator? == some .leftParen) = true ∧
        endsValue after = true then
      (.operand, [])
    else (.operator op false, if op.isSign then [] else [.incomplete (.firstOperand op)])
  | .operator first paired =>
    if (Comparator.ofPair? first op).isSome && !paired then (.operator op true, [])
    else (.operator op false, if op.isSign then [] else [.consecutiveOperators first op])

/-- The error of an operator that lacks its right side at the end of an argument or a group. -/
def danglingErrors (previous : Previous) (closing : Operator) : List ParseError :=
  match previous with
  | .operator op _ => [.incomplete (.operandBetween op closing)]
  | _ => []

/-- The error of an operand that stands where none is expected. -/
def operandErrors (previous : Previous) (shown : String) : List ParseError :=
  if previous = .operand then [.unexpectedToken shown] else []

/-- The errors in the sequence of the remaining tokens. `frames` are the open parentheses, innermost
first, and `before` is the token before. -/
def sequenceErrors (frames : List Frame) (previous : Previous) (before : Option Token) :
    List Token → List ParseError
  | [] =>
    match previous with
    | .operator op _ => [.incomplete (.lastOperandAfter op)]
    | _ => []
  | t :: ts =>
    if t.isWhere then
      (if frames.head?.any Frame.isCall then [] else [.invalidCondition .outsideCall]) ++
        sequenceErrors frames .operand none (argumentEnd 0 ts)
    else
      match t with
      | .operator .leftParen =>
        let frame := Frame.ofToken before
        (if frame.isCall then []
          else operandErrors previous Operator.leftParen.text ++
            if ts.head?.any (·.operator? == some .rightParen) then [.emptyGroup] else []) ++
          sequenceErrors (frame :: frames) .start (some t) ts
      | .operator .rightParen =>
        danglingErrors previous .rightParen ++ sequenceErrors frames.tail .operand (some t) ts
      | .operator .comma =>
        (if frames.head?.any Frame.isCall then [] else [.unexpectedToken Operator.comma.text]) ++
          danglingErrors previous .comma ++ sequenceErrors frames .start (some t) ts
      | .operator .dot =>
        .unexpectedToken Operator.dot.text :: sequenceErrors frames previous (some t) ts
      | .operator op =>
        let (next, errors) := operatorStep op previous frames.head? before ts
        errors ++ sequenceErrors frames next (some t) ts
      | .function name =>
        operandErrors previous name ++
          (if startsCall (t :: ts) then [] else [.incomplete (.arguments name)]) ++
          sequenceErrors frames .operand (some t) ts
      | t =>
        (if t.isAnd then [.unexpectedToken t.display] else operandErrors previous t.display) ++
          sequenceErrors frames .operand (some t) ts
termination_by ts => ts.length
decreasing_by
  all_goals simp only [List.length_cons]
  all_goals have := length_argumentEnd_le 0 ts
  all_goals omega

/-- Everything that is wrong with the structure of a token list. -/
def structuralErrors (ts : List Token) : List ParseError :=
  if ts.isEmpty then [.empty]
  else if !parensBalanced ts then [.unbalancedParentheses]
  else allCallErrors ts ++ sequenceErrors [] .start none ts

end RecordFormula
