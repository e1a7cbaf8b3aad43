import RecordFormula.Evaluation
import RecordFormula.Proofs.Nesting
import RecordFormula.Proofs.Calls

/-!
# Expression trees

The grammar of expressions: comparisons over sums over products over signed primaries. A tree has a
level, which says how tightly its operators bind, and each operator stands between a tree of its own
level on the left and a tighter one on the right. So every level goes from the left and nothing else
about precedence has to be said.

`Tree.tokens` writes a tree out and `Tree.value?` is what it means: the value of each part, found from
the values of its parts. Nothing here reads a token list.
-/

namespace RecordFormula

/-- A plus or a minus in front of an operand. -/
inductive Sign where
  | plus | minus
deriving DecidableEq, Repr

/-- A built-in function as a call names it: by its own name or by a field name that reads like it. -/
structure FunctionName where
  token : Token
  spec : FunctionSpec
  isName : token.isCallName = true
  found : Catalog.standard.find? token.callName = some spec

/-- How many arguments a built-in function takes. -/
def Builtin.arity : Builtin → Arity
  | .count => ⟨0, some 1⟩
  | .sum | .average | .minimum | .maximum => ⟨1, some 1⟩
  | .movingAverage | .ratio | .percentage | .growthRate => ⟨2, some 2⟩
  | .choose => ⟨3, some 3⟩

/-- How a built-in function works on the records. -/
def Builtin.mode : Builtin → FunctionMode
  | .sum | .average | .count | .minimum | .maximum | .movingAverage => .aggregate
  | .choose => .mixed
  | .ratio | .percentage | .growthRate => .scalar

/-- What a function computes says how it is called. -/
theorem FunctionName.arity_mode_eq (function : FunctionName) :
    function.spec.arity = function.spec.builtin.arity ∧ function.spec.mode = function.spec.builtin.mode := by
  have known := CallsLemmas.mem_of_find? function.found
  generalize function.spec = spec at known
  simp only [Catalog.standardFunctions, List.mem_cons, List.not_mem_nil, or_false] at known
  rcases known with rfl | rfl | rfl | rfl | rfl | rfl | rfl | rfl | rfl | rfl <;> exact ⟨rfl, rfl⟩

/-- A `WHERE` and the condition behind it. -/
structure WhereClause where
  keyword : Token
  tokens : List Token
  condition : Condition
  isWhere : keyword.isWhere = true
  parsed : Condition.parse tokens = .ok condition

/-- An expression. Operators bind as tightly as its level or tighter: at level 0 are the comparisons,
at 1 the sums, at 2 the products, at 3 the signed operands and at 4 the primaries. -/
inductive Tree : Nat → Type where
  /-- A tighter expression as it is. -/
  | tighter {level : Nat} (tree : Tree (level + 1)) : Tree level
  | binary (op : BinaryOp) (left : Tree op.level) (right : Tree (op.level + 1)) : Tree op.level
  | signed (signs : List Sign) (operand : Tree 4) : Tree 3
  | number (x : Float) : Tree 4
  | text (s : String) : Tree 4
  | field (name : String) (free : isReserved name = false) : Tree 4
  /-- An expression in parentheses. -/
  | group (inner : Tree 0) : Tree 4
  | call (function : FunctionName) {count : Nat} (args : Fin count → Tree 0) : Tree 4
  /-- A call of an aggregate for the records that pass a condition, which its first argument carries. -/
  | filtered (function : FunctionName) (aggregate : function.spec.mode = .aggregate)
      (value : Tree 0) (clause : WhereClause) {count : Nat} (more : Fin count → Tree 0) : Tree 4

/-! ## How trees are written -/

def Sign.operator : Sign → Operator
  | .plus => .plus
  | .minus => .minus

/-- The characters of a comparison. -/
def Comparator.operators : Comparator → List Operator
  | .equal => [.equal]
  | .notEqual => [.less, .greater]
  | .less => [.less]
  | .lessEqual => [.less, .equal]
  | .greater => [.greater]
  | .greaterEqual => [.greater, .equal]

/-- The characters of an operator. -/
def BinaryOp.operators : BinaryOp → List Operator
  | .add => [.plus]
  | .subtract => [.minus]
  | .multiply => [.star]
  | .divide => [.slash]
  | .compare op => op.operators

/-- A call's tokens, from those of its arguments. -/
def FunctionName.callTokens (function : FunctionName) (args : List (List Token)) : List Token :=
  let inside := match args with
    | [] => []
    | first :: more => withCommas first more
  function.token :: .operator .leftParen :: (inside ++ [.operator .rightParen])

/-- A tree as a token list. -/
def Tree.tokens {level : Nat} : Tree level → List Token
  | .tighter tree => tree.tokens
  | .binary op left right => left.tokens ++ (op.operators.map .operator ++ right.tokens)
  | .signed signs operand => signs.map (.operator ·.operator) ++ operand.tokens
  | .number x => [.number x]
  | .text s => [.text s]
  | .field name _ => [.field name]
  | .group inner => .operator .leftParen :: (inner.tokens ++ [.operator .rightParen])
  | .call function args => function.callTokens (List.ofFn fun i => (args i).tokens)
  | .filtered function _ value clause more =>
    function.callTokens
      ((value.tokens ++ clause.keyword :: clause.tokens) :: List.ofFn fun i => (more i).tokens)

/-! ## What trees mean -/

/-- The records that pass a condition; without a condition every record does. -/
def Context.passing? (ctx : Context) : Option Condition → Option (List Record)
  | none => some ctx.data.records
  | some condition => (ctx.select condition ctx.data.records).toOption

/-- What an expression is worth in a context, if it is worth anything there. -/
abbrev Meaning := Context → Option Value

namespace Meaning

/-- The value as a number. -/
def number? (meaning : Meaning) (ctx : Context) : Option Float := do
  (← meaning ctx).toNumber.toOption

/-- The values for the records that pass a condition. -/
def forEach (meaning : Meaning) (condition : Option Condition) (ctx : Context) :
    Option (List Value) := do
  (← ctx.passing? condition).mapM fun record => meaning (ctx.forRecord record)

/-- A reduction of the values that are numbers. -/
def reduce (reduction : List Float → Float) (meaning : Meaning) (condition : Option Condition) :
    Meaning := fun ctx => do
  let values ← meaning.forEach condition ctx
  pure (.number (reduction (values.filterMap Value.number?)))

/-- How many values are not null. -/
def count (meaning : Meaning) (condition : Option Condition) : Meaning := fun ctx => do
  let values ← meaning.forEach condition ctx
  pure (.number (Float.ofNat (values.countP fun value => !value.isNull)))

/-- The mean of the last numbers, as many as `size` says. -/
def movingAverage (meaning : Meaning) (condition : Option Condition) (size : Meaning) : Meaning :=
  fun ctx => do
    let window ← Builtin.window? (← size.number? ctx)
    meaning.reduce (Builtin.meanOfLast window) condition ctx

/-- The branch that a condition selects; the other one need not be worth anything. -/
def choose (condition yes no : Meaning) : Meaning := fun ctx => do
  if (← condition ctx).isTruthy then yes ctx else no ctx

/-- A function of a numerator and a denominator, 0 where the denominator is 0. -/
def quotient (divide : Float → Float → Float) (numerator denominator : Meaning) : Meaning :=
  fun ctx => do
    let x ← numerator.number? ctx
    let y ← denominator.number? ctx
    pure (.number (if y == 0 then 0 else divide x y))

end Meaning

/-- What a call of a function means, given what its arguments mean. A call with too few arguments or
too many is worth nothing. -/
def Builtin.meaning (builtin : Builtin) (condition : Option Condition) (args : List Meaning) :
    Meaning :=
  match builtin, args with
  | .sum, [value] => value.reduce Number.sum condition
  | .average, [value] => value.reduce Number.mean condition
  | .count, [] => fun ctx => some (.number (Float.ofNat ctx.data.size))
  | .count, [value] => value.count condition
  | .minimum, [value] => value.reduce Number.minimum condition
  | .maximum, [value] => value.reduce Number.maximum condition
  | .movingAverage, [value, size] => value.movingAverage condition size
  | .choose, [choice, yes, no] => choice.choose yes no
  | .ratio, [x, y] => x.quotient (fun x y => x / y) y
  | .percentage, [x, y] => x.quotient (fun x y => x / y * 100) y
  | .growthRate, [x, y] => x.quotient (fun x y => (x - y) / y * 100) y
  | _, _ => fun _ => none

/-- Whether a row of signs negates: an even number of minuses is none. -/
def negates (signs : List Sign) : Bool := signs.count .minus % 2 == 1

/-- What a tree means. Signs are folded into one, and only a negation asks for a number. -/
def Tree.value? {level : Nat} : Tree level → Meaning
  | .tighter tree => tree.value?
  | .binary op left right => fun ctx => do
    (op.apply (← left.value? ctx) (← right.value? ctx)).toOption
  | .signed signs operand => fun ctx => do
    let value ← operand.value? ctx
    if negates signs then pure (.number (-(← value.toNumber.toOption))) else pure value
  | .number x => fun _ => some (.number x)
  | .text s => fun _ => some (.text s)
  | .field name _ => fun ctx => (ctx.fieldValue name).toOption
  | .group inner => inner.value?
  | .call function args => function.spec.builtin.meaning none (List.ofFn fun i => (args i).value?)
  | .filtered function _ value clause more =>
    function.spec.builtin.meaning (some clause.condition)
      (value.value? :: List.ofFn fun i => (more i).value?)

theorem Tree.value?_binary (op : BinaryOp) (left : Tree op.level) (right : Tree (op.level + 1))
    (ctx : Context) :
    (Tree.binary op left right).value? ctx =
      (left.value? ctx).bind fun x => (right.value? ctx).bind fun y => (op.apply x y).toOption := rfl

theorem Tree.value?_signed (signs : List Sign) (operand : Tree 4) (ctx : Context) :
    (Tree.signed signs operand).value? ctx =
      (operand.value? ctx).bind fun value => (value.withSign (negates signs)).toOption := by
  rw [Tree.value?]
  refine Option.bind_congr fun value _ => ?_
  unfold Value.withSign
  cases negates signs with
  | false => rfl
  | true => cases value.toNumber <;> rfl

end RecordFormula
