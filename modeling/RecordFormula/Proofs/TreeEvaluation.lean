import RecordFormula.Proofs.Precedence
import RecordFormula.Proofs.TreeCalls

/-!
# The evaluation of trees

The evaluation of a tree's tokens gives what the tree means. Its two passes are followed through the
tree at once: `Becomes` says what a part of the tokens adds to the row that it stands in, whatever is
in front of it and behind it, and there is one lemma for each way in which a tree is made of others.

The two sides fail together but not for the same reason. Where a field is absent on the right and a
divisor is 0 on the left, the evaluation finds the field first and the tree the divisor.

Results:
1. `Tree.becomes`: a tree becomes its row.
2. `Tree.evaluate_tokens`: the evaluation of a tree's tokens gives what the tree means.
-/

namespace RecordFormula

open CallsLemmas NestingLemmas PrecedenceLemmas ResolveLemmas TreeLemmas

/-- What a part of a token list adds to the row that it stands in, or that it has no value. -/
def Becomes (ctx : Context) (ts : List Token) (items : Option (List Term)) : Prop :=
  ∀ (outer : List (List Term)) (row back : List Term),
    ((resolve evaluate ctx ts).toOption.bind fun terms =>
        (reduceFrom outer row (terms ++ back)).toOption) =
      items.bind fun items => (reduceFrom outer (row ++ items) back).toOption

namespace Becomes

variable {ctx : Context} {ts front back : List Token} {items more : Option (List Term)}

theorem append {stop : Token → Bool} (closed : isClosed stop 0 front = true)
    (next : back.head? ≠ some (.operator .leftParen)) (first : Becomes ctx front items)
    (second : Becomes ctx back more) :
    Becomes ctx (front ++ back) (items.bind fun x => more.bind fun y => some (x ++ y)) := by
  intro outer row behind
  rw [resolve_append closed next]
  simp only [toOption_bind, Option.bind_assoc]
  -- The front is reduced before the back is resolved in the tree and after it in the evaluation.
  -- Without reasons for a failure the two do not depend on each other and change places.
  calc
    _ = (resolve evaluate ctx back).toOption.bind fun terms =>
          (resolve evaluate ctx front).toOption.bind fun others =>
            (reduceFrom outer row (others ++ (terms ++ behind))).toOption := by
      rw [Option.bind_comm]
      simp [pure, Except.pure, Except.toOption]
    _ = (resolve evaluate ctx back).toOption.bind fun terms =>
          items.bind fun x => (reduceFrom outer (row ++ x) (terms ++ behind)).toOption := by
      refine Option.bind_congr fun terms _ => ?_
      exact first outer row (terms ++ behind)
    _ = items.bind fun x => more.bind fun y => (reduceFrom outer (row ++ x ++ y) behind).toOption := by
      rw [Option.bind_comm]
      refine Option.bind_congr fun x _ => ?_
      exact second outer (row ++ x) behind
    _ = _ := by simp

theorem value {x : Except EvalError Value}
    (resolved : resolve evaluate ctx ts = x.map fun v => [.value v]) :
    Becomes ctx ts (x.toOption.map fun v => [.value v]) := by
  intro outer row behind
  rw [resolved]
  cases x <;> rfl

theorem operators {ops : List Operator} (plain : ∀ op ∈ ops, Plain (.operator op))
    (part : Becomes ctx ts items) :
    Becomes ctx (ops.map .operator ++ ts) (items.map (ops.map .operator ++ ·)) := by
  have isPlain : ∀ t ∈ ops.map Term.operator, Plain t := by
    intro t mem
    obtain ⟨op, listed, rfl⟩ := List.mem_map.mp mem
    exact plain op listed
  intro outer row behind
  rw [resolve_operators_append, Option.bind_map]
  calc
    _ = (resolve evaluate ctx ts).toOption.bind fun terms =>
          (reduceFrom outer (row ++ ops.map .operator) (terms ++ behind)).toOption := by
      cases resolve evaluate ctx ts with
      | error reason => rfl
      | ok terms =>
        show (reduceFrom outer row (ops.map .operator ++ terms ++ behind)).toOption = _
        rw [List.append_assoc, reduceFrom_plain_append isPlain]
        rfl
    _ = items.bind fun items =>
          (reduceFrom outer (row ++ ops.map .operator ++ items) behind).toOption :=
      part outer (row ++ ops.map .operator) behind
    _ = _ := by simp

theorem group {stop : Token → Bool} (closed : isClosed stop 0 ts = true)
    (full : ∀ row, items = some row → row ≠ []) (inside : Becomes ctx ts items) :
    Becomes ctx (.operator .leftParen :: (ts ++ [.operator .rightParen]))
      ((items.bind fun row => (reduceFlat row).toOption).map fun v => [.value v]) := by
  have closing : resolve evaluate ctx [.operator .rightParen] = .ok [.operator .rightParen] := by
    rw [resolve_of_plain startsCall_operator, resolve]
    rfl
  intro outer row behind
  rw [resolve_of_plain startsCall_operator, resolve_append closed (by simp), closing]
  calc
    _ = (resolve evaluate ctx ts).toOption.bind fun terms =>
          (reduceFrom (row :: outer) [] (terms ++ .operator .rightParen :: behind)).toOption := by
      cases resolve evaluate ctx ts with
      | error reason => rfl
      | ok terms =>
        show (reduceFrom (row :: outer) [] (terms ++ [.operator .rightParen] ++ behind)).toOption = _
        rw [List.append_assoc]
        rfl
    _ = items.bind fun group =>
          (reduceFrom (row :: outer) group (.operator .rightParen :: behind)).toOption :=
      inside (row :: outer) [] (.operator .rightParen :: behind)
    _ = items.bind fun group => (reduceFlat group).toOption.bind fun value =>
          (reduceFrom outer (row ++ [.value value]) behind).toOption := by
      refine Option.bind_congr fun group found => ?_
      rw [reduceFrom_rightParen (full group found), toOption_bind]
    _ = _ := by
      rw [Option.bind_map, Option.bind_assoc]
      rfl

theorem toOption_evaluate (whole : Becomes ctx ts items) :
    (evaluate ts ctx).toOption = items.bind fun row => (reduceFlat row).toOption := by
  have evaluated := whole [] [] []
  simp only [List.append_nil, List.nil_append] at evaluated
  rw [evaluate_eq]
  exact (toOption_bind _ _).trans evaluated

end Becomes

/-! ## Trees -/

namespace TreeLemmas

variable {ctx : Context} {value : List Token} {meaning : Meaning}

/-- At the level of the primaries a row is a single value. -/
theorem row?_of_primary {level : Nat} (tree : Tree level) (primary : 4 ≤ level) (ctx : Context) :
    tree.row? ctx = (tree.value? ctx).map Row.single := by
  induction tree with
  | tighter tree ih => exact ih (by omega)
  | binary op =>
    have reached : op.level ≤ 2 := by cases op <;> simp [BinaryOp.level]
    omega
  | signed => exact absurd primary (by simp)
  | _ => rfl

theorem isWildcard_tree {level : Nat} (tree : Tree level) (condition : Option Condition) :
    AggregateArgument.isWildcard { value := tree.tokens, condition } = false := by
  obtain ⟨t, rest, same, noStar⟩ := tree.exists_head
  unfold AggregateArgument.isWildcard
  rw [same]
  split
  · rename_i empty
    exact absurd empty (by simp)
  · rename_i star
    exact absurd (List.cons.inj star).1 noStar
  · rfl

/-- What has no comma and no `WHERE` outside its parentheses has no condition. -/
theorem parse_value (closed : isClosed Token.endsArgument 0 value = true) :
    AggregateArgument.parse value = .ok { value, condition := none } := by
  have whole : splitWhere (value ++ []) = none :=
    splitWhereFrom_append closed endsArgument_of_isWhere
  rw [List.append_nil] at whole
  unfold AggregateArgument.parse
  rw [whole]

/-- With a clause behind it, it has that clause's condition. -/
theorem parse_where (clause : WhereClause) (closed : isClosed Token.endsArgument 0 value = true) :
    AggregateArgument.parse (value ++ clause.keyword :: clause.tokens) =
      .ok { value, condition := some clause.condition } := by
  have keyword : splitWhereFrom 0 (clause.keyword :: clause.tokens) = some ([], clause.tokens) := by
    rw [splitWhereFrom_cons (Token.isParen_of_isWhere clause.isWhere),
      if_pos ⟨rfl, clause.isWhere⟩]
  have parts : splitWhere (value ++ clause.keyword :: clause.tokens) =
      (splitWhereFrom 0 (clause.keyword :: clause.tokens)).map fun parts =>
        (value ++ parts.1, parts.2) :=
    splitWhereFrom_append closed endsArgument_of_isWhere
  rw [keyword, Option.map_some, List.append_nil] at parts
  unfold AggregateArgument.parse
  simp only [parts, clause.parsed]

theorem meansWhere_none {level : Nat} (tree : Tree level) (means : Means tree.tokens meaning) :
    MeansWhere none tree.tokens meaning :=
  ⟨tree.tokens, parse_value tree.isClosed_tokens, isWildcard_tree tree none, means⟩

theorem meansWhere_some {level : Nat} (tree : Tree level) (clause : WhereClause)
    (means : Means tree.tokens meaning) :
    MeansWhere (some clause.condition) (tree.tokens ++ clause.keyword :: clause.tokens) meaning :=
  ⟨tree.tokens, parse_where clause tree.isClosed_tokens, isWildcard_tree tree _, means⟩

theorem plain_operators {op : BinaryOp} : ∀ c ∈ op.operators, Plain (.operator c) := by
  cases op with
  | compare op => cases op <;> simp [BinaryOp.operators, Comparator.operators, Plain]
  | _ => simp [BinaryOp.operators, Plain]

theorem plain_signs {signs : List Sign} :
    ∀ c ∈ signs.map Sign.operator, Plain (.operator c) := by
  intro c mem
  obtain ⟨sign, -, rfl⟩ := List.mem_map.mp mem
  cases sign <;> simp [Sign.operator, Plain]

theorem resolve_single {t : Token} (plain : startsCall [t] = false) :
    resolve evaluate ctx [t] = (termOf ctx t).map ([·]) := by
  rw [resolve_of_plain plain, resolve]
  cases termOf ctx t <;> rfl

theorem resolve_callTokens {function : FunctionName} {args : List (List Token)}
    (each : ∀ arg ∈ args, IsArgument arg) :
    resolve evaluate ctx (function.callTokens args) =
      (evaluateCall evaluate { name := function.token.callName, args, rest := [] } ctx).map
        fun v => [.value v] := by
  have starts : startsCall (function.callTokens args) = true := function.isName
  have read : Call.read (function.callTokens args) = _ := function.read_callTokens each
  unfold FunctionName.callTokens at starts read ⊢
  rw [resolve_of_call starts read, resolve]
  cases evaluateCall evaluate { name := function.token.callName, args, rest := [] } ctx <;> rfl

theorem reduce_value (v : Value) : reduce [.value v] = .ok v := by
  have read : readSteps [.value v] = .ok (v, []) := RowsLemmas.readSteps_of_last rfl
  show reduceFlat [.value v] = .ok v
  rw [reduceFlat, read]
  rfl

theorem evaluate_number (x : Float) (ctx : Context) : evaluate [.number x] ctx = .ok (.number x) := by
  rw [evaluate_eq, evaluateLevel, resolve_single rfl]
  exact reduce_value _

theorem evaluateNumber_eq_ok_iff {ts : List Token} {x : Float} :
    evaluateNumber ts ctx = .ok x ↔ ∃ v, evaluate ts ctx = .ok v ∧ v.toNumber = .ok x := by
  constructor
  · exact fun found => exists_of_bind_eq_ok found
  · rintro ⟨v, found, number⟩
    show evaluate ts ctx >>= Value.toNumber = _
    rw [found]
    exact number

theorem evaluateNumber_number {ts : List Token} {x : Float} (found : evaluate ts ctx = .ok (.number x)) :
    evaluateNumber ts ctx = .ok x :=
  evaluateNumber_eq_ok_iff.mpr ⟨_, found, rfl⟩

theorem evaluate_field {name : String} (free : isReserved name = false) (ctx : Context) :
    evaluate [.field name] ctx = ctx.fieldValue name := by
  have plain : startsCall [Token.field name] = false := by simp [startsCall]
  rw [evaluate_eq, evaluateLevel, resolve_single plain, termOf, free, if_neg Bool.false_ne_true]
  cases ctx.fieldValue name with
  | error reason => rfl
  | ok value => exact reduce_value value

/-- The tokens of a call with as many arguments as its function takes are worth what the function makes
of the arguments. -/
theorem evaluate_callTokens {function : FunctionName} {args : List (List Token)}
    (each : ∀ arg ∈ args, IsArgument arg)
    (fits : function.spec.arity.accepts args.length = true) (ctx : Context) :
    evaluate (function.callTokens args) ctx = function.spec.builtin.run evaluate args ctx := by
  have called : evaluateCall evaluate { name := function.token.callName, args, rest := [] } ctx =
      function.spec.builtin.run evaluate args ctx := evaluateCall_of_accepts function.found fits
  rw [evaluate_eq, evaluateLevel, resolve_callTokens each, called]
  cases function.spec.builtin.run evaluate args ctx with
  | error reason => rfl
  | ok value => exact reduce_value value

theorem forall₂_ofFn {R : List Token → Meaning → Prop} {count : Nat}
    {f : Fin count → List Token} {g : Fin count → Meaning} (each : ∀ i, R (f i) (g i)) :
    List.Forall₂ R (List.ofFn f) (List.ofFn g) := by
  induction count with
  | zero => simp
  | succ count ih =>
    rw [List.ofFn_succ, List.ofFn_succ]
    exact .cons (each 0) (ih fun i => each i.succ)

theorem becomes_callTokens {function : FunctionName} {condition : Option Condition}
    {args : List (List Token)} {meanings : List Meaning} (each : ∀ arg ∈ args, IsArgument arg)
    (mean : ArgumentsMean function.spec.mode condition args meanings) :
    Becomes ctx (function.callTokens args)
      (((function.spec.builtin.meaning condition meanings ctx).map Row.single).map Row.terms) := by
  have whole : Becomes ctx (function.callTokens args) _ := Becomes.value (resolve_callTokens each)
  rw [function.toOption_evaluateCall mean ctx] at whole
  rw [Option.map_map]
  exact whole

theorem means_of_becomes {tree : Tree 0}
    (becomes : ∀ ctx, Becomes ctx tree.tokens ((tree.row? ctx).map Row.terms)) :
    Means tree.tokens tree.value? := by
  intro ctx
  rw [(becomes ctx).toOption_evaluate, Option.bind_map]
  exact tree.reduceFlat_row ctx

end TreeLemmas

/-- A tree becomes its row. -/
theorem Tree.becomes {level : Nat} (tree : Tree level) (ctx : Context) :
    Becomes ctx tree.tokens ((tree.row? ctx).map Row.terms) := by
  induction tree generalizing ctx with
  | tighter tree ih => exact ih ctx
  | binary op left right ihl ihr =>
    have next : (op.operators.map Token.operator ++ right.tokens).head? ≠
        some (.operator .leftParen) := by
      obtain ⟨first, others, operators, -⟩ := exists_operators op
      have plain : Plain (.operator first) := plain_operators first (operators ▸ List.mem_cons_self)
      rw [operators]
      intro same
      exact plain.1 (congrArg Term.operator (Token.operator.inj (Option.some.inj same)))
    have whole := (ihl ctx).append left.isClosed_tokens next ((ihr ctx).operators plain_operators)
    rw [Tree.row?_binary]
    cases front : left.row? ctx with
    | none =>
      rw [front] at whole
      exact whole
    | some a =>
      cases behind : right.row? ctx with
      | none =>
        rw [front, behind] at whole
        exact whole
      | some b =>
        rw [front, behind] at whole
        rw [Option.bind_some, Option.bind_some, Option.map_some, Row.terms_join]
        exact whole
  | signed signs operand ih =>
    have plain : ∀ c ∈ signs.map Sign.operator, Plain (.operator c) := plain_signs
    have whole := (ih ctx).operators plain
    rw [row?_of_primary operand (Nat.le_refl 4), List.map_map, List.map_map] at whole
    rw [Tree.row?]
    cases found : operand.value? ctx with
    | none =>
      rw [found] at whole
      exact whole
    | some value =>
      rw [found] at whole
      rw [Option.map_some, Option.map_some, Row.terms_signed]
      exact whole
  | number x =>
    exact Becomes.value (x := .ok (.number x)) (resolve_single rfl)
  | text s =>
    exact Becomes.value (x := .ok (.text s)) (resolve_single rfl)
  | field name free =>
    have resolved : resolve evaluate ctx [.field name] =
        (ctx.fieldValue name).map fun v => [.value v] := by
      rw [resolve_single rfl, termOf, free]
      cases ctx.fieldValue name <;> rfl
    have whole := Becomes.value resolved
    rw [Tree.row?, Option.map_map]
    exact whole
  | group inner ih =>
    have full : ∀ row, (inner.row? ctx).map Row.terms = some row → row ≠ [] := by
      intro row found
      obtain ⟨row, -, rfl⟩ := Option.map_eq_some_iff.mp found
      exact row.terms_ne_nil
    have whole := (ih ctx).group inner.isClosed_tokens full
    rw [Option.bind_map] at whole
    rw [Tree.row?, Option.map_map, ← inner.reduceFlat_row ctx]
    exact whole
  | call function args ih =>
    refine becomes_callTokens (fun arg mem => ?_) ?_
    · obtain ⟨i, rfl⟩ := List.mem_ofFn.mp mem
      exact (args i).isArgument
    · exact .of_forall₂ (forall₂_ofFn fun i => meansWhere_none (args i) (means_of_becomes (ih i)))
  | filtered function aggregate value clause more ihv ihm =>
    refine becomes_callTokens (fun arg mem => ?_) ?_
    · rcases List.mem_cons.mp mem with rfl | mem
      · exact value.isArgument_where clause
      · obtain ⟨i, rfl⟩ := List.mem_ofFn.mp mem
        exact (more i).isArgument
    · exact .cons (meansWhere_some value clause (means_of_becomes ihv))
        (fun scalar => absurd aggregate scalar) (forall₂_ofFn fun i => means_of_becomes (ihm i))

theorem Tree.toOption_evaluate (tree : Tree 0) (ctx : Context) :
    (evaluate tree.tokens ctx).toOption = tree.value? ctx :=
  means_of_becomes tree.becomes ctx

end RecordFormula
