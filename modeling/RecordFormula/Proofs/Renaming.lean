import RecordFormula.Proofs.ErrorKinds
import RecordFormula.Proofs.Conditions
import RecordFormula.Proofs.Lockstep
import RecordFormula.Proofs.Resolve

/-!
# Renamed fields

A renaming replaces the names in a token list. If it leaves keywords and the names of functions what they are,
a list and its renaming have the same shape, so every reader cuts them alike. If the new names also read what
the old ones read, the two lists are worth the same. There is one lemma for each function of the evaluation.

Results:
1. `read_renamed` and `parse_renamed`: calls and arguments of a renamed list are the renamed calls and
   arguments.
2. `evaluate_renamed`: a list and its renaming have the same value, or errors of one kind.
-/

namespace RecordFormula

/-- The token, with its name changed if it is a field. -/
def Token.rename (f : String → String) : Token → Token
  | .field name => .field (f name)
  | t => t

theorem Token.rename_operator (f : String → String) (op : Operator) :
    (Token.operator op).rename f = .operator op := rfl

/-- Renamings that leave keywords and the names of functions what they are. -/
structure KeepsWords (f : String → String) : Prop where
  isWhere : ∀ name, (Text.asciiUpper (f name) == whereWord) = (Text.asciiUpper name == whereWord)
  isAnd : ∀ name, (Text.asciiUpper (f name) == andWord) = (Text.asciiUpper name == andWord)
  spec : ∀ name,
    Catalog.standard.find? (Text.asciiUpper (f name)) = Catalog.standard.find? (Text.asciiUpper name)

variable {f : String → String} {ts : List Token}

/-! ## Tokens -/

section Tokens

variable (keeps : KeepsWords f)
include keeps

theorem isReserved_renamed (name : String) : isReserved (f name) = isReserved name := by
  rw [isReserved, isReserved, keeps.isWhere, keeps.isAnd]

theorem isWhere_renamed (t : Token) : (t.rename f).isWhere = t.isWhere := by
  cases t with
  | field name => exact keeps.isWhere name
  | _ => rfl

theorem isAnd_renamed (t : Token) : (t.rename f).isAnd = t.isAnd := by
  cases t with
  | field name => exact keeps.isAnd name
  | _ => rfl

theorem isCallName_renamed (t : Token) : (t.rename f).isCallName = t.isCallName := by
  cases t with
  | field name => exact congrArg not (isReserved_renamed keeps name)
  | _ => rfl

theorem startsCall_renamed (ts : List Token) : startsCall (ts.map (.rename f)) = startsCall ts := by
  rcases ts with - | ⟨t, - | ⟨next, ts⟩⟩
  · rfl
  · rfl
  · cases next with
    | operator op =>
      cases op with
      | leftParen => exact isCallName_renamed keeps t
      | _ => rfl
    | _ => rfl

theorem splitWhereFrom_renamed (depth : Nat) :
    splitWhereFrom depth (ts.map (.rename f)) =
      (splitWhereFrom depth ts).map (Prod.map (List.map (.rename f)) (List.map (.rename f))) := by
  induction ts generalizing depth with
  | nil => rfl
  | cons t ts ih =>
    have after (depth : Nat) :
        (splitWhereFrom depth (ts.map (.rename f))).map (fun parts => (t.rename f :: parts.1, parts.2)) =
          ((splitWhereFrom depth ts).map fun parts => (t :: parts.1, parts.2)).map
            (Prod.map (List.map (.rename f)) (List.map (.rename f))) := by
      rw [ih, Option.map_map, Option.map_map]
      rfl
    have plain :
        (if depth = 0 ∧ (t.rename f).isWhere = true then some ([], ts.map (.rename f))
          else (splitWhereFrom depth (ts.map (.rename f))).map fun parts =>
            (t.rename f :: parts.1, parts.2)) =
          (if depth = 0 ∧ t.isWhere = true then some ([], ts)
            else (splitWhereFrom depth ts).map fun parts => (t :: parts.1, parts.2)).map
            (Prod.map (List.map (.rename f)) (List.map (.rename f))) := by
      rw [isWhere_renamed keeps, after]
      split <;> rfl
    cases t with
    | operator op =>
      cases op with
      | leftParen | rightParen => exact after _
      | _ => exact plain
    | _ => exact plain

end Tokens

/-! ## Calls -/

/-- The pieces, each renamed. -/
def Pieces.rename (f : String → String) (pieces : Pieces) : Pieces where
  first := pieces.first.map (.rename f)
  more := pieces.more.map (List.map (.rename f))
  rest := pieces.rest.map (.rename f)

theorem Pieces.read?_renamed (depth : Nat) :
    Pieces.read? depth (ts.map (.rename f)) = (Pieces.read? depth ts).map (Pieces.rename f) := by
  induction ts generalizing depth with
  | nil => rfl
  | cons t ts ih =>
    have inside (depth : Nat) :
        (Pieces.read? depth (ts.map (.rename f))).map (Pieces.cons (t.rename f)) =
          ((Pieces.read? depth ts).map (Pieces.cons t)).map (Pieces.rename f) := by
      rw [ih, Option.map_map, Option.map_map]
      rfl
    cases t with
    | operator op =>
      cases op with
      | rightParen =>
        rw [List.map_cons, Token.rename_operator, Pieces.read?, Pieces.read?]
        split
        · rfl
        · exact inside _
      | comma =>
        rw [List.map_cons, Token.rename_operator, Pieces.read?, Pieces.read?]
        split
        · rw [ih, Option.map_map, Option.map_map]
          rfl
        · exact inside _
      | _ => exact inside _
    | _ => exact inside _

theorem Pieces.args_renamed (pieces : Pieces) :
    (pieces.rename f).args = pieces.args.map (List.map (.rename f)) := by
  rw [Pieces.args, Pieces.args, Pieces.rename, List.isEmpty_map, List.isEmpty_map]
  split <;> rfl

/-- A word that names calls, and what a renaming makes of it. Calls show a field name in upper case. -/
def SameCallName (f : String → String) (name name' : String) : Prop :=
  name' = name ∨ ∃ word, name = Text.asciiUpper word ∧ name' = Text.asciiUpper (f word)

/-- A call and the call that is read from the renamed list. -/
structure RenamedCall (f : String → String) (call call' : Call) : Prop where
  name : SameCallName f call.name call'.name
  args : call'.args = call.args.map (List.map (.rename f))
  rest : call'.rest = call.rest.map (.rename f)

/-- Calls are read alike in a list and its renaming. -/
theorem read_renamed (ts : List Token) :
    EndsAlike ParseError.kind (RenamedCall f) (Call.read ts) (Call.read (ts.map (.rename f))) := by
  have arguments {name name' : String} (same : SameCallName f name name') (ts : List Token) :
      EndsAlike ParseError.kind (RenamedCall f) (Call.readArguments name ts)
        (Call.readArguments name' (ts.map (.rename f))) := by
    cases ts with
    | nil => exact .error rfl
    | cons t ts =>
      cases t with
      | operator op =>
        cases op with
        | leftParen =>
          rw [List.map_cons, Token.rename_operator, Call.readArguments, Call.readArguments,
            Pieces.read?_renamed]
          cases Pieces.read? 0 ts with
          | none => exact .error rfl
          | some pieces => exact .ok ⟨same, pieces.args_renamed, rfl⟩
        | _ => exact .error rfl
      | _ => exact .error rfl
  cases ts with
  | nil => exact .error rfl
  | cons t ts =>
    cases t with
    | function name => exact arguments (.inl rfl) ts
    | field name => exact arguments (.inr ⟨name, rfl, rfl⟩) ts
    | _ => exact .error rfl

theorem RenamedCall.find?_eq {call call' : Call} (renamed : RenamedCall f call call') (keeps : KeepsWords f) :
    Catalog.standard.find? call'.name = Catalog.standard.find? call.name := by
  rcases renamed.name with same | ⟨word, isUpper, isUpper'⟩
  · rw [same]
  · rw [isUpper, isUpper', keeps.spec]

/-! ## Conditions and arguments -/

theorem Comparator.read?_renamed (ts : List Token) :
    Comparator.read? (ts.map (.rename f)) =
      (Comparator.read? ts).map (Prod.map id (List.map (.rename f))) := by
  have single (op : Operator) (ts : List Token) :
      (Comparator.ofOperator? op).map (·, ts.map (Token.rename f)) =
        ((Comparator.ofOperator? op).map (·, ts)).map (Prod.map id (List.map (.rename f))) := by
    rw [Option.map_map]
    rfl
  rcases ts with - | ⟨t, - | ⟨next, ts⟩⟩
  · rfl
  · cases t with
    | operator op => exact single op []
    | _ => rfl
  · cases t with
    | operator op =>
      cases next with
      | operator second =>
        rw [List.map_cons, List.map_cons, Token.rename_operator, Token.rename_operator, Comparator.read?,
          Comparator.read?]
        split
        · rfl
        · exact single op (.operator second :: ts)
      | _ => cases op <;> rfl
    | _ => rfl

theorem Literal.read?_renamed (ts : List Token) :
    Literal.read? (ts.map (.rename f)) = (Literal.read? ts).map (Prod.map id (List.map (.rename f))) := by
  rcases ts with - | ⟨t, ts⟩
  · rfl
  · cases t with
    | operator op =>
      rcases ts with - | ⟨next, ts⟩
      · cases op <;> rfl
      · cases op <;> cases next <;> rfl
    | _ => rfl

/-- The comparison of the renamed field. -/
def Comparison.rename (f : String → String) (comparison : Comparison) : Comparison :=
  { comparison with field := f comparison.field }

/-- The condition on the renamed fields. -/
def Condition.rename (f : String → String) (condition : Condition) : Condition :=
  ⟨condition.comparisons.map (.rename f)⟩

/-- The renamed argument. -/
def AggregateArgument.rename (f : String → String) (arg : AggregateArgument) : AggregateArgument where
  value := arg.value.map (.rename f)
  condition := arg.condition.map (.rename f)

/-- Comparisons of fields that are not keywords. -/
def Unreserved (comparisons : List Comparison) : Prop :=
  ∀ comparison ∈ comparisons, isReserved comparison.field = false

section Arguments

variable (keeps : KeepsWords f)
include keeps

theorem Comparison.read_renamed (ts : List Token) :
    EndsAlike ConditionError.kind
      (fun found found' => isReserved found.1.field = false ∧
        found' = (found.1.rename f, found.2.map (.rename f)))
      (Comparison.read ts) (Comparison.read (ts.map (.rename f))) := by
  cases ts with
  | nil => exact .error rfl
  | cons t ts =>
    cases t with
    | field name =>
      rw [List.map_cons, Token.rename, Comparison.read, Comparison.read, isReserved_renamed keeps,
        Comparator.read?_renamed]
      split
      · exact .error rfl
      · rename_i free
        rw [Bool.not_eq_true] at free
        cases Comparator.read? ts with
        | none => exact .error rfl
        | some found =>
          obtain ⟨op, ts⟩ := found
          dsimp only [Option.map_some, Prod.map]
          rw [Literal.read?_renamed]
          rcases Literal.read? ts with - | ⟨literal, rest⟩
          · exact .error rfl
          · cases literal with
            | number x => exact .ok ⟨free, rfl⟩
            | text s =>
              dsimp only [Option.map_some, Prod.map, id]
              split
              · exact .ok ⟨free, rfl⟩
              · exact .error rfl
    | _ => exact .error rfl

theorem Condition.readAll_renamed (ts : List Token) :
    EndsAlike ConditionError.kind
      (fun found found' => Unreserved found ∧ found' = found.map (.rename f))
      (Condition.readAll ts) (Condition.readAll (ts.map (.rename f))) := by
  induction length : ts.length using Nat.strongRecOn generalizing ts with
  | ind n ih =>
    subst length
    rw [ConditionLemmas.readAll_eq, ConditionLemmas.readAll_eq]
    have alike := Comparison.read_renamed keeps ts
    generalize found : Comparison.read ts = first at alike ⊢
    generalize Comparison.read (ts.map (.rename f)) = second at alike ⊢
    cases alike with
    | error same => exact .error same
    | @ok parts _ related =>
      obtain ⟨comparison, rest⟩ := parts
      obtain ⟨free, rfl⟩ := related
      have shorter := Comparison.length_of_read found
      cases rest with
      | nil => exact .ok ⟨List.forall_mem_singleton.mpr free, rfl⟩
      | cons t rest =>
        rw [List.map_cons]
        dsimp only
        rw [isAnd_renamed keeps]
        split
        · refine (ih rest.length (Nat.lt_of_succ_lt shorter) rest rfl).bind fun more _ _ _ related => ?_
          obtain ⟨areFree, rfl⟩ := related
          exact .ok ⟨List.forall_mem_cons.mpr ⟨free, areFree⟩, rfl⟩
        · exact .error rfl

theorem Condition.parse_renamed (ts : List Token) :
    EndsAlike ParseError.kind
      (fun found found' => Unreserved found.comparisons ∧ found' = found.rename f)
      (Condition.parse ts) (Condition.parse (ts.map (.rename f))) := by
  rw [Condition.parse, Condition.parse, List.isEmpty_map]
  split
  · exact .error rfl
  · have alike := Condition.readAll_renamed keeps ts
    generalize Condition.readAll ts = found at alike ⊢
    generalize Condition.readAll (ts.map (.rename f)) = found' at alike ⊢
    cases alike with
    | error same => exact .error (congrArg ParseError.invalidCondition same)
    | ok related =>
      obtain ⟨free, rfl⟩ := related
      exact .ok ⟨free, rfl⟩

/-- Arguments are read alike in a list and its renaming. -/
theorem parse_renamed (ts : List Token) :
    EndsAlike EvalError.kind
      (fun arg arg' => (∀ condition ∈ arg.condition, Unreserved condition.comparisons) ∧ arg' = arg.rename f)
      (AggregateArgument.parse ts) (AggregateArgument.parse (ts.map (.rename f))) := by
  rw [AggregateArgument.parse, AggregateArgument.parse, splitWhere, splitWhere, splitWhereFrom_renamed keeps]
  cases splitWhereFrom 0 ts with
  | none => exact .ok ⟨by simp, rfl⟩
  | some parts =>
    obtain ⟨value, tokens⟩ := parts
    have alike := Condition.parse_renamed keeps tokens
    dsimp only [Option.map_some, Prod.map]
    generalize Condition.parse tokens = found at alike ⊢
    generalize Condition.parse (tokens.map (.rename f)) = found' at alike ⊢
    cases alike with
    | error same => exact .error (congrArg EvalError.malformed same)
    | ok related =>
      obtain ⟨free, rfl⟩ := related
      exact .ok ⟨fun condition mem => Option.some.inj mem ▸ free, rfl⟩

end Arguments

theorem isWildcard_renamed (arg : AggregateArgument) : (arg.rename f).isWildcard = arg.isWildcard := by
  obtain ⟨value, condition⟩ := arg
  rcases value with - | ⟨t, - | ⟨next, ts⟩⟩
  · rfl
  · cases t with
    | operator op => cases op <;> rfl
    | _ => rfl
  · cases t with
    | operator op => cases op <;> rfl
    | _ => rfl

/-! ## Contexts -/

/-- Contexts in which the new names read what the old ones read. -/
def ReadsAlike (f : String → String) (ctx : Context) : Prop :=
  ∀ record ∈ ctx.data.records, ∀ name, isReserved name = false →
    EndsAlike EvalError.kind Eq (ctx.lookup record name) (ctx.lookup record (f name))

section Contexts

variable {ctx : Context} (alike : ReadsAlike f ctx)
include alike

theorem ReadsAlike.forRecord {record : Record} (mem : record ∈ ctx.data.records) :
    ReadsAlike f (ctx.forRecord record) := by
  intro other isSame
  obtain rfl := List.mem_singleton.mp isSame
  exact alike other mem

theorem fieldValue_renamed {name : String} (free : isReserved name = false) :
    EndsAlike EvalError.kind Eq (ctx.fieldValue name) (ctx.fieldValue (f name)) := by
  obtain ⟨data, schema, strict⟩ := ctx
  cases data with
  | many records => exact .error rfl
  | single record =>
    exact (alike record (List.mem_singleton_self record) name free).bind_eq fun _ _ => .refl _

theorem termOf_renamed (keeps : KeepsWords f) (t : Token) :
    EndsAlike EvalError.kind Eq (termOf ctx t) (termOf ctx (t.rename f)) := by
  cases t with
  | field name =>
    rw [Token.rename, termOf, termOf, isReserved_renamed keeps]
    split
    · exact .error rfl
    · rename_i free
      rw [Bool.not_eq_true] at free
      exact (fieldValue_renamed alike free).bind_eq fun _ _ => .refl _
  | _ => exact .refl _

theorem passes_renamed {record : Record} {comparisons : List Comparison} (mem : record ∈ ctx.data.records)
    (free : Unreserved comparisons) :
    EndsAlike EvalError.kind Eq (ctx.passes record comparisons)
      (ctx.passes record (comparisons.map (.rename f))) := by
  induction comparisons with
  | nil => exact .refl _
  | cons comparison comparisons ih =>
    obtain ⟨isFree, areFree⟩ := List.forall_mem_cons.mp free
    refine (alike record mem comparison.field isFree).bind_eq fun value _ => ?_
    show EndsAlike _ _ (if comparison.accepts (value.getD .null) then _ else _)
      (if comparison.accepts (value.getD .null) then _ else _)
    split
    · exact ih areFree
    · exact .refl _

theorem select_renamed {records : List Record} {condition : Condition} (here : records ⊆ ctx.data.records)
    (free : Unreserved condition.comparisons) :
    EndsAlike EvalError.kind Eq (ctx.select condition records) (ctx.select (condition.rename f) records) := by
  induction records with
  | nil => exact .refl _
  | cons record records ih =>
    obtain ⟨mem, others⟩ := List.cons_subset.mp here
    refine (passes_renamed alike mem free).bind_eq fun _ _ => ?_
    exact (ih others).bind_eq fun _ _ => .refl _

theorem matching_renamed {arg : AggregateArgument}
    (free : ∀ condition ∈ arg.condition, Unreserved condition.comparisons) :
    EndsAlike EvalError.kind Eq (arg.matching ctx) ((arg.rename f).matching ctx) := by
  obtain ⟨value, - | condition⟩ := arg
  · exact .refl _
  · exact select_renamed alike (List.Subset.refl _) (free condition rfl)

end Contexts

/-! ## Functions -/

/-- Runs that end alike do so step by step. -/
def Lockstep.endsAlike : Lockstep where
  Relates := EndsAlike EvalError.kind
  ok := .ok
  error _ := .error rfl
  bind := .bind

/-- Two evaluators of which the second gives to the renaming of a list what the first gives to the list. -/
def Matches (f : String → String) (eval eval' : Evaluator) : Prop :=
  ∀ ts ctx, ReadsAlike f ctx → EndsAlike EvalError.kind Eq (eval ts ctx) (eval' (ts.map (.rename f)) ctx)

section Functions

variable {eval eval' : Evaluator} {ctx : Context} (keeps : KeepsWords f) (runs : Matches f eval eval')
  (alike : ReadsAlike f ctx)

include runs in
theorem valuesOf_renamed {records : List Record} (here : records ⊆ ctx.data.records)
    (alike : ReadsAlike f ctx) :
    EndsAlike EvalError.kind Eq (AggregateArgument.valuesOf eval ts ctx records)
      (AggregateArgument.valuesOf eval' (ts.map (.rename f)) ctx records) := by
  induction records with
  | nil => exact .refl _
  | cons record records ih =>
    obtain ⟨mem, others⟩ := List.cons_subset.mp here
    refine (runs ts _ (alike.forRecord mem)).bind_eq fun _ _ => ?_
    exact (ih others).bind_eq fun _ _ => .refl _

include runs alike

/-- An aggregate gets the same from an argument and from its renaming. -/
theorem aggregates_renamed {arg : AggregateArgument}
    (free : ∀ condition ∈ arg.condition, Unreserved condition.comparisons) :
    AlikeAggregates .endsAlike eval eval' ctx ctx arg (arg.rename f) :=
  .of_matching (isWildcard_renamed arg) (matching_renamed alike free)
    (fun _ _ same => congrArg List.length same)
    fun _ _ found same => same ▸ valuesOf_renamed runs (subset_of_matching found) alike

include keeps

theorem arguments_renamed (arg : List Token) :
    AlikeArguments .endsAlike eval eval' ctx ctx arg (arg.map (.rename f)) where
  value := runs arg ctx alike
  parsed := by
    have alikeParsed := parse_renamed keeps arg
    generalize AggregateArgument.parse arg = first at alikeParsed ⊢
    generalize AggregateArgument.parse (arg.map (.rename f)) = second at alikeParsed ⊢
    cases alikeParsed with
    | error same => exact .error same
    | ok related =>
      obtain ⟨free, rfl⟩ := related
      exact .ok (aggregates_renamed runs alike free)

theorem run_renamed (builtin : Builtin) (args : List (List Token)) :
    EndsAlike EvalError.kind Eq (builtin.run eval args ctx)
      (builtin.run eval' (args.map (List.map (.rename f))) ctx) := by
  have arguments : List.Forall₂ (AlikeArguments .endsAlike eval eval' ctx ctx) args
      (args.map (List.map (.rename f))) := by
    rw [List.forall₂_map_right_iff, List.forall₂_same]
    exact fun arg _ => arguments_renamed keeps runs alike arg
  exact run_lockstep arguments builtin rfl

theorem evaluateCall_renamed {call call' : Call} (renamed : RenamedCall f call call') :
    EndsAlike EvalError.kind Eq (evaluateCall eval call ctx) (evaluateCall eval' call' ctx) := by
  rw [evaluateCall, evaluateCall, renamed.find?_eq keeps, renamed.args, List.length_map]
  split
  · exact .error rfl
  · exact (EndsAlike.refl _).bind_eq fun _ _ => run_renamed keeps runs alike _ _

theorem resolve_renamed (ts : List Token) :
    EndsAlike EvalError.kind Eq (resolve eval ctx ts) (resolve eval' ctx (ts.map (.rename f))) := by
  have calls {t : Token} {ts : List Token} (starts : startsCall (t :: ts) = true) :
      startsCall (t.rename f :: ts.map (.rename f)) = true :=
    (startsCall_renamed keeps (t :: ts)).trans starts
  induction ts using resolve_induction with
  | nil =>
    rw [List.map_nil, resolve, resolve]
    exact .refl _
  | unread t ts reason starts failed =>
    have alikeRead := @read_renamed f (t :: ts)
    rw [failed] at alikeRead
    generalize failed' : Call.read ((t :: ts).map (.rename f)) = second at alikeRead
    cases alikeRead with
    | error same =>
      rw [resolve_of_unread starts failed, List.map_cons, resolve_of_unread (calls starts) failed']
      exact .error (congrArg EvalError.malformed same)
  | call t ts call starts found ih =>
    have alikeRead := @read_renamed f (t :: ts)
    rw [found] at alikeRead
    generalize found' : Call.read ((t :: ts).map (.rename f)) = second at alikeRead
    cases alikeRead with
    | ok renamed =>
      rw [resolve_of_call starts found, List.map_cons, resolve_of_call (calls starts) found', renamed.rest]
      refine (evaluateCall_renamed keeps runs alike renamed).bind_eq fun value _ => ?_
      exact ih.bind_eq fun _ _ => .refl _
  | plain t ts plain ih =>
    have plain' : startsCall (t.rename f :: ts.map (.rename f)) = false :=
      (startsCall_renamed keeps (t :: ts)).trans plain
    rw [resolve_of_plain plain, List.map_cons, resolve_of_plain plain']
    refine (termOf_renamed alike keeps t).bind_eq fun term _ => ?_
    exact ih.bind_eq fun _ _ => .refl _

end Functions

/-! ## Evaluations -/

theorem evaluateWithin_renamed (keeps : KeepsWords f) (reason : EvalError) (levels : Nat) :
    Matches f (evaluateWithin (fun _ _ => .error reason) levels)
      (evaluateWithin (fun _ _ => .error reason) levels) := by
  induction levels with
  | zero => exact fun _ _ _ => .refl _
  | succ levels ih =>
    intro ts ctx alike
    exact (resolve_renamed keeps ih alike ts).bind_eq fun _ _ => .refl _

/-- A list and its renaming have the same value or errors of one kind, if the renaming keeps keywords and
functions and the new names read what the old ones read. -/
theorem evaluate_renamed (keeps : KeepsWords f) {ctx : Context} (alike : ReadsAlike f ctx) (ts : List Token) :
    EndsAlike EvalError.kind Eq (evaluate ts ctx) (evaluate (ts.map (.rename f)) ctx) := by
  rw [evaluate, evaluate, List.length_map]
  exact evaluateWithin_renamed keeps _ _ ts ctx alike

end RecordFormula
