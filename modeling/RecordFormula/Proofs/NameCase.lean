import RecordFormula.Proofs.CleanScan
import RecordFormula.Proofs.Renaming

/-!
# Letter case of names

A renaming that changes nothing but the case of ASCII letters leaves keywords and functions what they are. The
calls of a list then have the same names, since these are in upper case, and the checks of the structure find
the same errors, up to the names that they show.

Results:
1. `RenamedCall.name_eq`: calls are listed alike.
2. `structuralErrors_recased`: a list and its renaming have errors of the same kinds.
3. `fieldNames_recased` and `evaluate_recased`: if only keywords change, the same fields are read, and the
   lists are worth the same everywhere.
-/

namespace RecordFormula

/-- Renamings that change nothing but letter case. -/
def ChangesCase (f : String → String) : Prop := ∀ name, Text.asciiUpper (f name) = Text.asciiUpper name

variable {f : String → String} {ts : List Token}

theorem ChangesCase.keepsWords (changes : ChangesCase f) : KeepsWords f where
  isWhere name := by rw [changes name]
  isAnd name := by rw [changes name]
  spec name := by rw [changes name]

section Calls

variable (changes : ChangesCase f)
include changes

theorem RenamedCall.name_eq {call call' : Call} (renamed : RenamedCall f call call') :
    call'.name = call.name := by
  rcases renamed.name with same | ⟨word, isUpper, isUpper'⟩
  · exact same
  · rw [isUpper, isUpper', changes word]

theorem callSites_recased (ts : List Token) : callSites (ts.map (.rename f)) = callSites ts := by
  induction ts with
  | nil => rfl
  | cons t ts ih =>
    have sameStart := startsCall_renamed changes.keepsWords (t :: ts)
    have alike := @read_renamed f (t :: ts)
    rw [List.map_cons] at sameStart alike
    rw [List.map_cons, callSites, callSites, sameStart, ih]
    generalize Call.read (t :: ts) = found at alike ⊢
    generalize Call.read (t.rename f :: ts.map (.rename f)) = found' at alike ⊢
    cases alike with
    | error => rfl
    | ok renamed =>
      dsimp only
      rw [renamed.name_eq changes, renamed.args, List.length_map]

/-! ## Errors -/

theorem argumentErrors_recased {call call' : Call} (renamed : RenamedCall f call call') (index last : Nat)
    (arg : List Token) :
    (argumentErrors call index last arg).map ParseError.kind =
      (argumentErrors call' index last (arg.map (.rename f))).map ParseError.kind := by
  rw [argumentErrors, argumentErrors, List.isEmpty_map, renamed.name_eq changes, splitWhere, splitWhere,
    splitWhereFrom_renamed changes.keepsWords]
  split
  · rfl
  · cases splitWhereFrom 0 arg with
    | none => rfl
    | some parts =>
      obtain ⟨value, tokens⟩ := parts
      have alike := Condition.parse_renamed changes.keepsWords tokens
      dsimp only [Option.map_some, Prod.map]
      rw [List.isEmpty_map]
      generalize Condition.parse tokens = found at alike ⊢
      generalize Condition.parse (tokens.map (.rename f)) = found' at alike ⊢
      split
      · rfl
      · rw [List.map_append, List.map_append]
        cases alike with
        | error same => rw [List.map_singleton, List.map_singleton, same]
        | ok => rfl

theorem callErrors_recased {call call' : Call} (renamed : RenamedCall f call call') :
    (callErrors call).map ParseError.kind = (callErrors call').map ParseError.kind := by
  rw [callErrors, callErrors, renamed.args, List.isEmpty_map, renamed.name_eq changes]
  split
  · rfl
  · rw [List.length_map, List.zipIdx_map, List.map_flatMap, List.map_flatMap, List.flatMap_map]
    refine congrArg (call.args.zipIdx.flatMap ·) (funext fun part => ?_)
    exact argumentErrors_recased changes renamed _ _ _

theorem allCallErrors_recased (ts : List Token) :
    (allCallErrors ts).map ParseError.kind = (allCallErrors (ts.map (.rename f))).map ParseError.kind := by
  induction ts with
  | nil => rfl
  | cons t ts ih =>
    have sameStart := startsCall_renamed changes.keepsWords (t :: ts)
    have alike := @read_renamed f (t :: ts)
    rw [List.map_cons] at sameStart alike
    rw [List.map_cons, allCallErrors, allCallErrors, sameStart, List.map_append, List.map_append, ih]
    generalize Call.read (t :: ts) = found at alike ⊢
    generalize Call.read (t.rename f :: ts.map (.rename f)) = found' at alike ⊢
    refine congrArg (· ++ _) ?_
    split
    · cases alike with
      | error same => rw [List.map_singleton, List.map_singleton, same]
      | ok renamed => exact callErrors_recased changes renamed
    · rfl

end Calls

namespace NameCaseLemmas

open CleanScanLemmas

theorem operatorAt_renamed (t : Token) : (t.rename f).operator? = t.operator? := by
  cases t <;> rfl

theorem argumentEnd_renamed (depth : Nat) :
    argumentEnd depth (ts.map (.rename f)) = (argumentEnd depth ts).map (.rename f) := by
  induction ts generalizing depth with
  | nil => rfl
  | cons t ts ih =>
    cases t with
    | operator op =>
      cases op with
      | rightParen | comma =>
        rw [List.map_cons, Token.rename_operator, argumentEnd, argumentEnd]
        split
        · rfl
        · exact ih _
      | _ => exact ih _
    | _ => exact ih _

theorem tokenNestingFrom_renamed (depth deepest : Nat) :
    tokenNestingFrom depth deepest (ts.map (.rename f)) = tokenNestingFrom depth deepest ts := by
  induction ts generalizing depth deepest with
  | nil => rfl
  | cons t ts ih =>
    cases t with
    | operator op =>
      cases op with
      | rightParen =>
        rw [List.map_cons, Token.rename_operator, tokenNestingFrom, tokenNestingFrom, ih]
      | _ => exact ih _ _
    | _ => exact ih _ _

theorem operandErrors_kind (previous : Previous) (shown shown' : String) :
    (operandErrors previous shown).map ParseError.kind =
      (operandErrors previous shown').map ParseError.kind := by
  rw [operandErrors, operandErrors]
  split <;> rfl

section

variable (keeps : KeepsWords f)
include keeps

theorem ofToken_renamed (before : Option Token) :
    Frame.ofToken (before.map (.rename f)) = Frame.ofToken before := by
  cases before with
  | none => rfl
  | some t =>
    show (if (t.rename f).isCallName then _ else _) = if t.isCallName then _ else _
    rw [isCallName_renamed keeps]
    cases t <;> rfl

theorem endsValue_renamed (ts : List Token) : endsValue (ts.map (.rename f)) = endsValue ts := by
  cases ts with
  | nil => rfl
  | cons t ts =>
    cases t with
    | operator op => cases op <;> rfl
    | field name => exact isWhere_renamed keeps (.field name)
    | _ => rfl

theorem operatorStep_renamed (op : Operator) (previous : Previous) (frame : Option Frame)
    (before : Option Token) :
    operatorStep op previous frame (before.map (.rename f)) (ts.map (.rename f)) =
      operatorStep op previous frame before ts := by
  cases previous with
  | start =>
    rw [operatorStep, operatorStep, endsValue_renamed keeps, Option.any_map]
    simp only [operatorAt_renamed]
  | _ => rfl

theorem isOperand_renamed (t : Token) : (t.rename f).isOperand = t.isOperand := by
  cases t with
  | field name => exact congrArg not (isReserved_renamed keeps name)
  | _ => rfl

theorem operatorErrors_renamed {op : Operator} {frames : List Frame} {previous : Previous}
    {before : Option Token}
    (behind : ∀ frames previous before, (sequenceErrors frames previous before ts).map ParseError.kind =
      (sequenceErrors frames previous (before.map (.rename f)) (ts.map (.rename f))).map ParseError.kind) :
    (sequenceErrors frames previous before (.operator op :: ts)).map ParseError.kind =
      (sequenceErrors frames previous (before.map (.rename f))
        (.operator op :: ts.map (.rename f))).map ParseError.kind := by
  cases joins : op.joins with
  | true =>
    rw [sequenceErrors_operator joins, sequenceErrors_operator joins, operatorStep_renamed keeps,
      List.map_append, List.map_append, behind]
    rfl
  | false =>
    cases op with
    | leftParen =>
      have closes : (ts.map (Token.rename f)).head?.any (·.operator? == some .rightParen) =
          ts.head?.any (·.operator? == some .rightParen) := by
        rw [List.head?_map, Option.any_map]
        simp only [operatorAt_renamed]
      rw [sequenceErrors_leftParen, sequenceErrors_leftParen, ofToken_renamed keeps, closes, List.map_append,
        List.map_append, behind]
      rfl
    | rightParen =>
      rw [sequenceErrors_rightParen, sequenceErrors_rightParen, List.map_append, List.map_append, behind]
      rfl
    | comma =>
      rw [sequenceErrors_comma, sequenceErrors_comma]
      simp only [List.map_append, behind]
      rfl
    | dot =>
      rw [sequenceErrors_dot, sequenceErrors_dot, List.map_cons, List.map_cons, behind]
      rfl
    | _ => exact absurd joins (by decide)

theorem sequenceErrors_renamed (frames : List Frame) (previous : Previous) (before : Option Token)
    (ts : List Token) :
    (sequenceErrors frames previous before ts).map ParseError.kind =
      (sequenceErrors frames previous (before.map (.rename f)) (ts.map (.rename f))).map ParseError.kind := by
  -- On the length of the list: behind a `WHERE` the scan goes on at the end of the argument.
  induction length : ts.length using Nat.strongRecOn generalizing frames previous before ts with
  | ind n ih =>
    subst length
    cases ts with
    | nil =>
      rw [List.map_nil, sequenceErrors.eq_def, sequenceErrors.eq_def]
    | cons t ts =>
      have behind := fun frames previous before =>
        ih ts.length (Nat.lt_succ_self _) frames previous before ts rfl
      have clause (keyword : t.isWhere = true) :
          (sequenceErrors frames previous before (t :: ts)).map ParseError.kind =
            (sequenceErrors frames previous (before.map (.rename f))
              (t.rename f :: ts.map (.rename f))).map ParseError.kind := by
        have skipped := ih _ (Nat.lt_succ_of_le (length_argumentEnd_le 0 ts)) frames .operand none _ rfl
        rw [sequenceErrors_clause keyword, sequenceErrors_clause ((isWhere_renamed keeps t).trans keyword),
          argumentEnd_renamed, List.map_append, List.map_append, skipped]
        rfl
      have operand (isOperand : t.isOperand = true) :
          (sequenceErrors frames previous before (t :: ts)).map ParseError.kind =
            (sequenceErrors frames previous (before.map (.rename f))
              (t.rename f :: ts.map (.rename f))).map ParseError.kind := by
        rw [sequenceErrors_operand isOperand,
          sequenceErrors_operand ((isOperand_renamed keeps t).trans isOperand), List.map_append,
          List.map_append, behind, operandErrors_kind]
        rfl
      cases t with
      | number x => exact operand rfl
      | text s => exact operand rfl
      | operator op => exact operatorErrors_renamed keeps behind
      | function name =>
        have starts : startsCall (.function name :: ts.map (.rename f)) = _ :=
          startsCall_renamed keeps (.function name :: ts)
        show _ = (sequenceErrors frames previous _ (.function name :: ts.map (.rename f))).map ParseError.kind
        rw [sequenceErrors_function, sequenceErrors_function, starts]
        simp only [List.map_append, behind]
        rfl
      | field name =>
        cases keyword : (Token.field name).isWhere with
        | true => exact clause keyword
        | false =>
          cases joined : (Token.field name).isAnd with
          | false => exact operand (isOperand_of_field.mpr ⟨keyword, joined⟩)
          | true =>
            rw [List.map_cons, sequenceErrors_and joined keyword,
              sequenceErrors_and ((isAnd_renamed keeps _).trans joined)
                ((isWhere_renamed keeps _).trans keyword), List.map_cons, List.map_cons, behind]
            rfl

end

end NameCaseLemmas

open NameCaseLemmas

/-- The structure of a list and of its renaming is wrong in the same ways. -/
theorem structuralErrors_recased (changes : ChangesCase f) (ts : List Token) :
    (structuralErrors ts).map ParseError.kind =
      (structuralErrors (ts.map (.rename f))).map ParseError.kind := by
  rw [structuralErrors, structuralErrors, List.isEmpty_map, parensBalanced, parensBalanced, tokenNesting,
    tokenNesting, tokenNestingFrom_renamed]
  split
  · rfl
  · split
    · rfl
    · rw [List.map_append, List.map_append, allCallErrors_recased changes]
      exact congrArg (_ ++ ·) (sequenceErrors_renamed changes.keepsWords [] .start none ts)

/-! ## Keywords -/

/-- Renamings of keywords only. -/
def KeepsFields (f : String → String) : Prop := ∀ name, isReserved name = false → f name = name

section Keywords

variable (changes : ChangesCase f) (fields : KeepsFields f)
include changes fields

/-- The fields that are read stay the same. -/
theorem fieldNames_recased (ts : List Token) : fieldNames (ts.map (.rename f)) = fieldNames ts := by
  induction ts with
  | nil => rfl
  | cons t ts ih =>
    cases t with
    | field name =>
      have starts := startsCall_renamed changes.keepsWords (.field name :: ts)
      rw [List.map_cons, Token.rename] at starts
      rw [List.map_cons, Token.rename, fieldNames, fieldNames, starts, ih,
        isReserved_renamed changes.keepsWords]
      split
      · rename_i read
        rw [Bool.and_eq_true, Bool.not_eq_true'] at read
        rw [fields name read.1]
      · rfl
    | _ => exact ih

/-- The value stays the same, whatever the list is evaluated over. -/
theorem evaluate_recased (ts : List Token) (ctx : Context) :
    EndsAlike EvalError.kind Eq (evaluate ts ctx) (evaluate (ts.map (.rename f)) ctx) := by
  refine evaluate_renamed changes.keepsWords (fun record _ name free => ?_) ts
  rw [fields name free]
  exact .refl _

end Keywords

end RecordFormula
