import RecordFormula.Proofs.Calls
import RecordFormula.Proofs.ScanSteps
import RecordFormula.Proofs.Validity

/-!
# Parentheses of a text and of its tokens

The nesting of an expression is limited on its characters, before there are tokens; what comes later
counts the parentheses of the tokens. Both counts pass over quoted texts, the one by following the
quotes, the other because a quoted text is one token. `Balanced` and `IsDeepest` say on the beginnings
of a token list what is counted.

Results:
1. `tokenNesting_eq_some_iff`: the tokens are counted right.
2. `nestingDepth_eq_tokenNesting`: the count of the characters is that of the tokens.
3. `nestingDepth_agrees`: both, and so reading never finds the parentheses of the tokens unbalanced.
-/

namespace RecordFormula

open NestingLemmas ValidityLemmas

/-! ## Levels -/

/-- How a token changes the number of open parentheses. -/
def Token.change : Token → Int
  | .operator .leftParen => 1
  | .operator .rightParen => -1
  | _ => 0

/-- How many more parentheses a list opens than it closes. -/
def level : List Token → Int
  | [] => 0
  | t :: ts => t.change + level ts

/-- Each parenthesis has its partner. -/
structure Balanced (ts : List Token) : Prop where
  /-- None is closed before it is opened. -/
  opened : ∀ front, front <+: ts → 0 ≤ level front
  /-- None stays open. -/
  closed : level ts = 0

/-- The level that the parentheses of a list reach and do not exceed. -/
structure IsDeepest (ts : List Token) (depth : Nat) : Prop where
  bound : ∀ front, front <+: ts → level front ≤ depth
  reached : ∃ front, front <+: ts ∧ level front = depth

namespace ParenthesesLemmas

variable {depth deepest found : Nat} {t : Token} {ts : List Token}

@[simp] theorem level_nil : level [] = 0 := rfl

@[simp] theorem level_cons : level (t :: ts) = t.change + level ts := rfl

theorem change_of_plain (plain : t.isParen = false) : t.change = 0 := by
  cases t with
  | operator op => cases op <;> first | rfl | simp [Token.isParen] at plain
  | _ => rfl

theorem forall_prefix_cons {P : List Token → Prop} :
    (∀ front, front <+: t :: ts → P front) ↔ P [] ∧ ∀ front, front <+: ts → P (t :: front) := by
  constructor
  · exact fun all => ⟨all [] List.nil_prefix, fun front inside =>
      all (t :: front) ((List.prefix_cons_inj t).mpr inside)⟩
  · rintro ⟨empty, longer⟩ front inside
    rcases List.prefix_cons_iff.mp inside with rfl | ⟨shorter, rfl, within⟩
    · exact empty
    · exact longer shorter within

theorem exists_prefix_cons {P : List Token → Prop} :
    (∃ front, front <+: t :: ts ∧ P front) ↔ P [] ∨ ∃ front, front <+: ts ∧ P (t :: front) := by
  constructor
  · rintro ⟨front, inside, holds⟩
    rcases List.prefix_cons_iff.mp inside with rfl | ⟨shorter, rfl, within⟩
    · exact .inl holds
    · exact .inr ⟨shorter, within, holds⟩
  · rintro (holds | ⟨front, inside, holds⟩)
    · exact ⟨[], List.nil_prefix, holds⟩
    · exact ⟨t :: front, (List.prefix_cons_inj t).mpr inside, holds⟩

/-- What a list that starts `depth` levels down comes to, `deepest` being the level reached before. -/
structure Levels (depth deepest : Nat) (ts : List Token) (found : Nat) : Prop where
  opened : ∀ front, front <+: ts → 0 ≤ depth + level front
  closed : depth + level ts = 0
  above : deepest ≤ found
  bound : ∀ front, front <+: ts → depth + level front ≤ found
  reached : found = deepest ∨ ∃ front, front <+: ts ∧ depth + level front = found

theorem levels_nil (below : depth ≤ deepest) :
    Levels depth deepest [] found ↔ depth = 0 ∧ deepest = found := by
  constructor
  · rintro ⟨-, closed, above, bound, reached⟩
    rw [level_nil] at closed
    refine ⟨by omega, ?_⟩
    rcases reached with rfl | ⟨front, inside, reached⟩
    · rfl
    · rw [List.prefix_nil.mp inside, level_nil] at reached
      omega
  · rintro ⟨rfl, rfl⟩
    refine ⟨fun front inside => ?_, rfl, Nat.le_refl _, fun front inside => ?_, .inl rfl⟩
    · rw [List.prefix_nil.mp inside, level_nil]
      omega
    · rw [List.prefix_nil.mp inside, level_nil]
      omega

/-- One token: the level after it, and the deepest one so far. -/
theorem levels_cons (depth' deepest' : Nat) (below : depth ≤ deepest)
    (change : (depth' : Int) = depth + t.change) (deeper : deepest' = max deepest depth') :
    Levels depth deepest (t :: ts) found ↔ Levels depth' deepest' ts found := by
  have shift (front : List Token) :
      (depth : Int) + level (t :: front) = depth' + level front := by
    rw [level_cons, change]
    omega
  constructor
  · rintro ⟨opened, closed, above, bound, reached⟩
    rw [forall_prefix_cons] at opened bound
    rw [exists_prefix_cons] at reached
    simp only [shift] at opened closed bound reached
    have here := bound.2 [] List.nil_prefix
    rw [level_nil] at here reached
    refine ⟨opened.2, closed, by omega, bound.2, ?_⟩
    rcases reached with same | same | reached
    · exact .inl (by omega)
    · exact .inl (by omega)
    · exact .inr reached
  · rintro ⟨opened, closed, above, bound, reached⟩
    refine ⟨forall_prefix_cons.mpr ⟨?_, ?_⟩, ?_, by omega, forall_prefix_cons.mpr ⟨?_, ?_⟩, ?_⟩
    · rw [level_nil]
      omega
    · simpa only [shift] using opened
    · rw [shift]
      exact closed
    · rw [level_nil]
      omega
    · simpa only [shift] using bound
    · rw [exists_prefix_cons]
      simp only [shift]
      rcases reached with same | reached
      · by_cases deepened : deepest' = deepest
        · exact .inl (same.trans deepened)
        · refine .inr (.inr ⟨[], List.nil_prefix, ?_⟩)
          rw [level_nil]
          omega
      · exact .inr (.inr reached)

theorem not_levels_rightParen : ¬ Levels 0 deepest (.operator .rightParen :: ts) found := by
  rintro ⟨opened, -, -, -, -⟩
  have here := (forall_prefix_cons.mp opened).2 [] List.nil_prefix
  simp [Token.change] at here

theorem tokenNestingFrom_eq_some_iff (below : depth ≤ deepest) :
    tokenNestingFrom depth deepest ts = some found ↔ Levels depth deepest ts found := by
  induction ts generalizing depth deepest with
  | nil =>
    rw [levels_nil below, tokenNestingFrom]
    by_cases outside : depth = 0 <;> simp [outside]
  | cons t ts ih =>
    rcases t.paren_cases with rfl | rfl | plain
    · rw [levels_cons (depth + 1) (max deepest (depth + 1)) below rfl rfl]
      exact ih (by omega)
    · cases depth with
      | zero =>
        refine ⟨fun impossible => ?_, fun levels => absurd levels not_levels_rightParen⟩
        simp [tokenNestingFrom] at impossible
      | succ depth =>
        rw [levels_cons depth deepest below (by rw [Token.change]; omega) (by omega)]
        have closes : tokenNestingFrom (depth + 1) deepest (.operator .rightParen :: ts) =
            tokenNestingFrom depth deepest ts := rfl
        rw [closes]
        exact ih (by omega)
    · rw [levels_cons depth deepest below (by rw [change_of_plain plain]; omega) (by omega),
        tokenNestingFrom_cons plain]
      exact ih below

theorem exists_isDeepest (ts : List Token) : ∃ depth, IsDeepest ts depth := by
  induction ts with
  | nil =>
    refine ⟨0, fun front inside => ?_, [], List.nil_prefix, rfl⟩
    rw [List.prefix_nil.mp inside]
    exact Int.le_refl _
  | cons t ts ih =>
    obtain ⟨depth, bound, front, inside, reached⟩ := ih
    refine ⟨(t.change + depth).toNat, forall_prefix_cons.mpr ⟨?_, fun front inside => ?_⟩,
      exists_prefix_cons.mpr ?_⟩
    · rw [level_nil]
      omega
    · rw [level_cons]
      have := bound front inside
      omega
    · by_cases above : 0 ≤ t.change + depth
      · refine .inr ⟨front, inside, ?_⟩
        rw [level_cons]
        omega
      · refine .inl ?_
        rw [level_nil]
        omega

end ParenthesesLemmas

open ParenthesesLemmas

/-- The nesting of a token list is the deepest level of its parentheses, if they are balanced. -/
theorem tokenNesting_eq_some_iff {ts : List Token} {depth : Nat} :
    tokenNesting ts = some depth ↔ Balanced ts ∧ IsDeepest ts depth := by
  rw [tokenNesting, tokenNestingFrom_eq_some_iff (Nat.le_refl 0)]
  constructor
  · rintro ⟨opened, closed, -, bound, reached⟩
    simp only [Int.ofNat_zero, Int.zero_add] at opened closed bound reached
    refine ⟨⟨opened, closed⟩, bound, ?_⟩
    rcases reached with rfl | reached
    · exact ⟨[], List.nil_prefix, rfl⟩
    · exact reached
  · rintro ⟨⟨opened, closed⟩, bound, reached⟩
    refine ⟨?_, ?_, Nat.zero_le _, ?_, .inr ?_⟩
    · simpa using opened
    · simpa using closed
    · simpa using bound
    · simpa using reached

theorem exists_tokenNesting_iff {ts : List Token} :
    (∃ depth, tokenNesting ts = some depth) ↔ Balanced ts := by
  simp only [tokenNesting_eq_some_iff]
  constructor
  · rintro ⟨_, balanced, _⟩
    exact balanced
  · intro balanced
    obtain ⟨depth, deepest⟩ := exists_isDeepest ts
    exact ⟨depth, balanced, deepest⟩

/-! ## Characters and tokens -/

/-- The quote that a scan is inside of. -/
def Reading.quote? : Reading → Option Char
  | .word _ => none
  | .text quote _ _ => some quote

namespace ParenthesesLemmas

variable {depth deepest : Nat} {c : Char} {cs : List Char} {ts : List Token}

theorem isParen_classify (word : List Char) : (classify word).isParen = false := by
  have noOperator := operator?_classify word
  cases classified : classify word with
  | operator op =>
    rw [classified] at noOperator
    exact absurd noOperator (by simp [Token.operator?])
  | _ => rfl

theorem tokenNestingFrom_flush (letters : List Char) :
    tokenNestingFrom depth deepest (Scan.flush letters ++ ts) = tokenNestingFrom depth deepest ts := by
  unfold Scan.flush
  split
  · rfl
  · exact tokenNestingFrom_cons (isParen_classify _)

theorem nestingFrom_quote (isQuote : IsQuote c) :
    nestingFrom depth deepest none (c :: cs) = nestingFrom depth deepest (some c) cs := by
  rw [nestingFrom]
  exact if_pos isQuote

/-- Outside quotes a character that is neither a quote nor a parenthesis is passed over. -/
theorem nestingFrom_other (noQuote : ¬ IsQuote c) (noOpening : c ≠ '(') (noClosing : c ≠ ')') :
    nestingFrom depth deepest none (c :: cs) = nestingFrom depth deepest none cs := by
  rw [IsQuote] at noQuote
  simp only [nestingFrom, noQuote, noOpening, noClosing, if_false]

/-- An operator counts as its character does, if what is behind it counts alike. -/
theorem nestingFrom_operator (op : Operator)
    (agree : ∀ depth deepest, nestingFrom depth deepest none cs = tokenNestingFrom depth deepest ts) :
    nestingFrom depth deepest none (op.char :: cs) =
      tokenNestingFrom depth deepest (.operator op :: ts) := by
  cases op with
  | rightParen =>
    show (if depth = 0 then none else nestingFrom (depth - 1) deepest none cs) = _
    rw [agree]
    rfl
  | _ => exact agree _ _

/-- What a step reads counts as what it writes. -/
theorem nestingFrom_step {scan next : Scan} {after : Option Char} {tokens : List Token}
    (step : Scan.Step after scan c tokens next)
    (agree : ∀ depth deepest,
      nestingFrom depth deepest next.reading.quote? cs = tokenNestingFrom depth deepest ts) :
    nestingFrom depth deepest scan.reading.quote? (c :: cs) =
      tokenNestingFrom depth deepest (tokens ++ ts) := by
  cases step with
  | @verbatim quote _ _ _ _ _ _ inside =>
    show nestingFrom depth deepest (if c = quote then none else some quote) cs = _
    rw [if_neg inside]
    exact agree _ _
  | unquote =>
    show nestingFrom depth deepest (if c = c then none else some c) cs = _
    rw [if_pos rfl, List.singleton_append, tokenNestingFrom_cons rfl]
    exact agree _ _
  | quote isQuote =>
    rw [tokenNestingFrom_flush, ← agree]
    exact nestingFrom_quote isQuote
  | blank noQuote isBlank =>
    rw [tokenNestingFrom_flush, ← agree]
    refine nestingFrom_other noQuote ?_ ?_ <;> rintro rfl <;> exact absurd isBlank (by decide)
  | letter noQuote _ isLetter =>
    rw [List.nil_append, ← agree]
    refine nestingFrom_other noQuote ?_ ?_ <;> rintro rfl <;> exact absurd isLetter (by decide)
  | point _ =>
    rw [List.nil_append, ← agree]
    exact nestingFrom_other (by simp [IsQuote]) (by simp) (by simp)
  | operator _ _ =>
    rw [List.append_assoc, tokenNestingFrom_flush]
    exact nestingFrom_operator _ agree

theorem nestingFrom_run {scan : Scan} {tokens : List Token} (scanned : scan.run cs = .ok tokens) :
    nestingFrom depth deepest scan.reading.quote? cs = tokenNestingFrom depth deepest tokens := by
  induction cs generalizing scan tokens depth deepest with
  | nil =>
    rw [Scan.run] at scanned
    split at scanned
    · rename_i letters _
      obtain rfl := Except.ok.inj scanned
      have flushed : tokenNestingFrom depth deepest (Scan.flush letters ++ []) = _ :=
        tokenNestingFrom_flush letters
      rw [List.append_nil] at flushed
      rw [flushed]
      rfl
    · exact absurd scanned (by simp)
  | cons c cs ih =>
    obtain ⟨first, next, rest, step, behind, rfl⟩ := exists_of_run_cons scanned
    exact nestingFrom_step step fun _ _ => ih behind

end ParenthesesLemmas

/-- The nesting of an expression is the nesting of its tokens. -/
theorem nestingDepth_eq_tokenNesting {expression : String} {tokens : List Token}
    (read : tokenize expression = .ok tokens) : nestingDepth expression = tokenNesting tokens :=
  nestingFrom_run read

/-! ## Reading -/

namespace ParenthesesLemmas

variable {ts : List Token}

theorem not_unbalanced_of_tokenize {expression : String} :
    tokenize expression ≠ .error .unbalancedParentheses := by
  intro failed
  rcases run_eq_error failed with ⟨pair, impossible⟩ | ⟨offset, impossible⟩ <;>
    exact absurd impossible (by simp)

theorem not_unbalanced_of_condition : Condition.parse ts ≠ .error .unbalancedParentheses := by
  intro failed
  rw [Condition.parse] at failed
  split at failed
  · exact absurd failed (by simp)
  · split at failed <;> exact absurd failed (by simp)

theorem not_unbalanced_of_argument {call : Call} {index last : Nat} {arg : List Token} :
    .unbalancedParentheses ∉ argumentErrors call index last arg := by
  rw [argumentErrors]
  split
  · rw [List.mem_singleton]
    split
    · simp
    · split <;> simp
  · split
    · exact List.not_mem_nil
    · split
      · simp
      · rw [List.mem_append, not_or]
        constructor
        · split <;> simp
        · split
          · exact List.not_mem_nil
          · rename_i reason failed
            rw [List.mem_singleton]
            rintro rfl
            exact not_unbalanced_of_condition failed

theorem not_unbalanced_of_call {call : Call} : .unbalancedParentheses ∉ callErrors call := by
  rw [callErrors]
  split
  · split <;> simp
  · intro mem
    obtain ⟨⟨arg, index⟩, -, mem⟩ := List.mem_flatMap.mp mem
    exact not_unbalanced_of_argument mem

theorem not_unbalanced_of_dangling {previous : Previous} {closing : Operator} :
    .unbalancedParentheses ∉ danglingErrors previous closing := by
  cases previous <;> simp [danglingErrors]

theorem not_unbalanced_of_operand {previous : Previous} {shown : String} :
    .unbalancedParentheses ∉ operandErrors previous shown := by
  rw [operandErrors]
  split <;> simp

theorem not_unbalanced_of_operator {op : Operator} {previous : Previous} {frame : Option Frame}
    {before : Option Token} {after : List Token} :
    .unbalancedParentheses ∉ (operatorStep op previous frame before after).2 := by
  unfold operatorStep
  split
  · exact List.not_mem_nil
  · split
    · exact List.not_mem_nil
    · dsimp only
      split <;> simp
  · split
    · exact List.not_mem_nil
    · dsimp only
      split <;> simp

theorem not_unbalanced_of_sequence {frames : List Frame} {previous : Previous}
    {before : Option Token} :
    .unbalancedParentheses ∉ sequenceErrors frames previous before ts := by
  fun_induction sequenceErrors frames previous before ts with
  | case1 => simp
  | case2 => exact List.not_mem_nil
  | case3 _ _ _ _ _ _ ih =>
    rw [List.mem_append, not_or]
    exact ⟨by split <;> simp, ih⟩
  | case4 _ _ _ _ _ _ ih =>
    rw [List.mem_append, not_or]
    refine ⟨?_, ih⟩
    split
    · exact List.not_mem_nil
    · rw [List.mem_append, not_or]
      exact ⟨not_unbalanced_of_operand, by split <;> simp⟩
  | case5 _ _ _ _ _ ih =>
    rw [List.mem_append, not_or]
    exact ⟨not_unbalanced_of_dangling, ih⟩
  | case6 _ _ _ _ _ ih =>
    rw [List.mem_append, List.mem_append, not_or, not_or]
    exact ⟨⟨by split <;> simp, not_unbalanced_of_dangling⟩, ih⟩
  | case7 _ _ _ _ _ ih =>
    rw [List.mem_cons, not_or]
    exact ⟨by simp, ih⟩
  | case8 frames previous before ts op _ _ _ _ next errors step _ ih =>
    rw [List.mem_append, not_or]
    refine ⟨?_, ih⟩
    have reported := @not_unbalanced_of_operator op previous frames.head? before ts
    rwa [step] at reported
  | case9 _ _ _ _ _ _ ih =>
    rw [List.mem_append, List.mem_append, not_or, not_or]
    exact ⟨⟨not_unbalanced_of_operand, by split <;> simp⟩, ih⟩
  | case10 _ _ _ _ _ _ _ _ _ _ _ _ ih =>
    rw [List.mem_append, not_or]
    refine ⟨?_, ih⟩
    split
    · simp
    · exact not_unbalanced_of_operand

/-- Where the parentheses balance the structure has no fault in them. -/
theorem not_unbalanced_of_structure (balanced : parensBalanced ts = true) :
    .unbalancedParentheses ∉ structuralErrors ts := by
  rw [structuralErrors]
  split
  · simp
  · rw [balanced, allCallErrors_eq (parensBalanced_iff.mp balanced)]
    simp only [Bool.not_true, Bool.false_eq_true, if_false, List.mem_append, not_or]
    refine ⟨fun mem => ?_, not_unbalanced_of_sequence⟩
    obtain ⟨call, -, mem⟩ := List.mem_flatMap.mp mem
    exact not_unbalanced_of_call mem

end ParenthesesLemmas

/-- The characters of an expression and its tokens nest alike: the count of the characters comes to
something if and only if the parentheses of the tokens balance, and then it is their deepest level. So
reading never finds that the parentheses of the tokens do not balance. -/
theorem nestingDepth_agrees (expression : String) :
    (∀ tokens, tokenize expression = .ok tokens →
      ((∃ depth, nestingDepth expression = some depth) ↔ Balanced tokens) ∧
      (parensBalanced tokens = true ↔ Balanced tokens) ∧
      ∀ depth, nestingDepth expression = some depth → IsDeepest tokens depth) ∧
    ∀ limits, parse limits expression ≠ .error (.parse .unbalancedParentheses) := by
  constructor
  · intro tokens read
    rw [nestingDepth_eq_tokenNesting read]
    refine ⟨exists_tokenNesting_iff, ?_, fun depth found => (tokenNesting_eq_some_iff.mp found).2⟩
    rw [parensBalanced, Option.isSome_iff_exists]
    exact exists_tokenNesting_iff
  · intro limits failed
    cases parse_eq_error_iff.mp failed with
    | token _ _ unread => exact not_unbalanced_of_tokenize unread
    | «structure» _ passed read malformed =>
      refine not_unbalanced_of_structure ?_ (malformed ▸ List.mem_cons_self)
      rw [parensBalanced, ← nestingDepth_eq_tokenNesting read]
      exact isSome_nestingDepth passed

/-- The tokens of `((amount + ')') * rate)`. -/
def quotedParenthesis : List Token :=
  [.operator .leftParen, .operator .leftParen, .field "amount", .operator .plus, .text ")",
    .operator .rightParen, .operator .star, .field "rate", .operator .rightParen]

/-- A parenthesis in quotes closes none of those around it. -/
theorem quotedParenthesis_closes_none :
    Balanced quotedParenthesis ∧ IsDeepest quotedParenthesis 2 ∧
      parse {} "((amount + ')') * rate)" ≠ .error (.parse .unbalancedParentheses) := by
  have read : tokenize "((amount + ')') * rate)" = .ok quotedParenthesis := by
    with_unfolding_all rfl
  have found : nestingDepth "((amount + ')') * rate)" = some 2 := by with_unfolding_all rfl
  obtain ⟨agrees, balances⟩ := nestingDepth_agrees "((amount + ')') * rate)"
  obtain ⟨balanced, -, deepest⟩ := agrees _ read
  exact ⟨balanced.mp ⟨2, found⟩, deepest 2 found, balances {}⟩

end RecordFormula
