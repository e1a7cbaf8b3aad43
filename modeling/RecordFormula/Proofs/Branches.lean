import RecordFormula.Proofs.CallSpans
import RecordFormula.Proofs.NumberOrder
import RecordFormula.Proofs.TreeEvaluation

/-!
# Branches

`IF` has a condition and two branches. It works out the condition and then one of the branches, so that the
other can be anything that is an argument: it may divide by 0, call a function that there is not, or be no
expression at all.

Which branch it takes is decided on the text of a condition by a rule of its own, which reads infinite
numerals too. It decides as arithmetic would, for which such a text is no number: an infinite number is not
0, and a text with a numeral in it is not empty.

Results:
1. `Value.isTruthy_iff`: a condition holds if it is a number other than 0 or some text that is no number.
2. `evaluate_choose`: what a call with a condition and two branches is worth.
3. `choose_takes_one_branch`: the other branch does not matter.
-/

namespace RecordFormula

open CallsLemmas TreeLemmas

/-- A condition holds if it is a number other than 0, where null, truth values and texts are meant as they
are in arithmetic, or if it is a text that is no number and not empty. -/
def Value.Holds (v : Value) : Prop :=
  (∃ x, v.toNumber = .ok x ∧ (x == 0) = false) ∨
    ∃ s reason, v = .text s ∧ s ≠ "" ∧ v.toNumber = .error reason

namespace BranchesLemmas

variable {v : Value} {x : Float} {s : String}

theorem holds_iff_of_number (number : v.toNumber = .ok x) : v.Holds ↔ (x != 0) = true := by
  rw [bne, Bool.not_eq_true']
  constructor
  · rintro (⟨y, same, nonzero⟩ | ⟨_, _, -, -, failed⟩)
    · rw [number] at same
      obtain rfl := Except.ok.inj same
      exact nonzero
    · rw [number] at failed
      exact absurd failed (by simp)
  · exact fun nonzero => .inl ⟨x, number, nonzero⟩

theorem holds_iff_of_text (none : Number.ofText s = none) : (Value.text s).Holds ↔ s ≠ "" := by
  have failed : (Value.text s).toNumber = .error (.typeMismatch (.notANumber (.text s))) := by
    simp [Value.toNumber, Value.number?, none]
  constructor
  · rintro (⟨x, number, -⟩ | ⟨t, _, same, some, -⟩)
    · rw [failed] at number
      exact absurd number (by simp)
    · rw [Value.text.inj same]
      exact some
  · exact fun some => .inr ⟨s, _, rfl, some, failed⟩

theorem ne_empty_of_readNumeral (reads : Number.readNumeral (Text.trim s.toList) = some x) : s ≠ "" := by
  rintro rfl
  have nothing : Number.readNumeral (Text.trim "".toList) = none := by with_unfolding_all rfl
  rw [nothing] at reads
  exact absurd reads (by simp)

/-- The rule for texts. A numeral that is no number to arithmetic is infinite or a NaN, hence not 0. -/
theorem isTruthy_text (s : String) : (Value.text s).isTruthy = true ↔ (Value.text s).Holds := by
  cases reads : Number.readNumeral (Text.trim s.toList) with
  | none =>
    have rule : (Value.text s).isTruthy = !s.isEmpty := by simp only [Value.isTruthy, reads]
    have none : Number.ofText s = none := by rw [Number.ofText, reads, Option.filter_none]
    rw [rule, holds_iff_of_text none]
    simp
  | some x =>
    have rule : (Value.text s).isTruthy = (x != 0) := by simp only [Value.isTruthy, reads]
    rw [rule]
    cases finite : x.isFinite with
    | true =>
      have numeral : Number.ofText s = some x := by rw [Number.ofText, reads, Option.filter_some, if_pos finite]
      have number : (Value.text s).toNumber = .ok x := by simp [Value.toNumber, Value.number?, numeral]
      exact (holds_iff_of_number number).symm
    | false =>
      have none : Number.ofText s = none := by
        rw [Number.ofText, reads, Option.filter_some, if_neg (by simp [finite])]
      have nonzero : (x == 0) = false := by
        rw [Bool.eq_false_iff]
        intro zero
        exact absurd (Number.isFinite_of_beq zero (by decide +kernel)) (by simp [finite])
      rw [holds_iff_of_text none]
      simp [bne, nonzero, ne_empty_of_readNumeral reads]

end BranchesLemmas

open BranchesLemmas

/-- The rule of `IF` for its condition. -/
theorem Value.isTruthy_iff (v : Value) : v.isTruthy = true ↔ v.Holds := by
  cases v with
  | number x => exact (holds_iff_of_number rfl).symm
  | text s => exact isTruthy_text s
  | boolean b =>
    rw [holds_iff_of_number (x := if b then 1 else 0) rfl]
    cases b <;> decide +kernel
  | null =>
    rw [holds_iff_of_number (x := 0) rfl]
    decide +kernel

section Choose

variable {function : FunctionName} {ctx : Context} {c t e : List Token} {v : Value}

/-- A call with a condition and two branches works out the condition and then one branch. -/
theorem evaluate_choose (named : function.spec.builtin = .choose) (condition : IsArgument c)
    (first : IsArgument t) (second : IsArgument e) :
    evaluate (function.callTokens [c, t, e]) ctx =
      evaluate c ctx >>= fun v => if v.isTruthy then evaluate t ctx else evaluate e ctx := by
  have fits : function.spec.arity.accepts 3 = true := by
    rw [function.arity_mode_eq.1, named]
    rfl
  rw [evaluate_callTokens (by simp [condition, first, second]) fits, named]
  show (evaluate c ctx >>= _) = _
  refine congrArg _ (funext fun v => ?_)
  cases v.isTruthy <;> rfl

end Choose

/-- How a call with a condition and two branches answers: as the branch that the condition decides on, with
a value or an error, and whatever the other one is. -/
structure TakesOneBranch (call : List Token → List Token → List Token → List Token) (c t e : List Token)
    (ctx : Context) : Prop where
  /-- Without a condition there is nothing to decide. -/
  fails {reason : EvalError} : evaluate c ctx = .error reason → evaluate (call c t e) ctx = .error reason
  takes_first {v : Value} : evaluate c ctx = .ok v → v.Holds → evaluate (call c t e) ctx = evaluate t ctx
  takes_second {v : Value} : evaluate c ctx = .ok v → ¬ v.Holds → evaluate (call c t e) ctx = evaluate e ctx
  /-- The second branch can be replaced where it is not taken. -/
  spares_second {other : List Token} : other ≠ [] ∧ Balanced other ∧ AllInside Token.isComma other →
    (∀ v, evaluate c ctx = .ok v → v.Holds) → evaluate (call c t other) ctx = evaluate (call c t e) ctx
  /-- The first branch can be replaced where it is not taken. -/
  spares_first {other : List Token} : other ≠ [] ∧ Balanced other ∧ AllInside Token.isComma other →
    (∀ v, evaluate c ctx = .ok v → ¬ v.Holds) → evaluate (call c other e) ctx = evaluate (call c t e) ctx

/-- A call of `IF`, by any of its names, depends on its condition and the branch that it takes. The
condition and the branches are lists with balanced parentheses that have their commas inside these. -/
theorem choose_takes_one_branch {function : FunctionName} (named : function.spec.builtin = .choose)
    {c t e : List Token} (condition : c ≠ [] ∧ Balanced c ∧ AllInside Token.isComma c)
    (first : t ≠ [] ∧ Balanced t ∧ AllInside Token.isComma t)
    (second : e ≠ [] ∧ Balanced e ∧ AllInside Token.isComma e) (ctx : Context) :
    TakesOneBranch (fun c t e => function.callTokens [c, t, e]) c t e ctx := by
  replace condition := isArgument_iff.mpr condition
  replace first := isArgument_iff.mpr first
  replace second := isArgument_iff.mpr second
  have call {t e : List Token} (first : IsArgument t) (second : IsArgument e) :=
    @evaluate_choose function ctx c t e named condition first second
  constructor
  case fails =>
    intro reason failed
    rw [call first second, failed]
    rfl
  case takes_first =>
    intro v found holds
    rw [call first second, found]
    exact if_pos (v.isTruthy_iff.mpr holds)
  case takes_second =>
    intro v found fails
    rw [call first second, found]
    exact if_neg (mt v.isTruthy_iff.mp fails)
  case spares_second =>
    intro other isOther taken
    rw [call first (isArgument_iff.mpr isOther), call first second]
    cases found : evaluate c ctx with
    | error reason => rfl
    | ok v =>
      have holds := v.isTruthy_iff.mpr (taken v found)
      exact (if_pos holds).trans (if_pos holds).symm
  case spares_first =>
    intro other isOther taken
    rw [call (isArgument_iff.mpr isOther) second, call first second]
    cases found : evaluate c ctx with
    | error reason => rfl
    | ok v =>
      have fails := mt v.isTruthy_iff.mp (taken v found)
      exact (if_neg fails).trans (if_neg fails).symm

/-- The choice by its own name. -/
def chooseFunction : FunctionName where
  token := .function "IF"
  spec := { name := "IF", arity := ⟨3, some 3⟩, mode := .mixed, builtin := .choose
            description := "Choose between two values on a condition"
            usage := "IF(condition, then, else)" }
  isName := rfl
  found := by with_unfolding_all rfl

/-- The tokens of `total / loan_count`. -/
def perLoan : List Token := [.field "total", .operator .slash, .field "loan_count"]

/-- The tokens of `NOPE()`. -/
def unknownCall : List Token := [.function "NOPE", .operator .leftParen, .operator .rightParen]

/-- A total and the number of loans that it is of. -/
def loans (total count : Float) : Context :=
  { data := .single (.ofList [("total", .number total), ("loan_count", .number count)]) }

/-- Without loans nothing is divided by their number, and no function is called. -/
theorem no_loans_divide_nothing :
    evaluate (chooseFunction.callTokens [[.field "loan_count"], perLoan, [.number 0]]) (loans 50 0) =
        .ok (.number 0) ∧
      evaluate perLoan (loans 50 0) = .error .divisionByZero ∧
      evaluate (chooseFunction.callTokens [[.field "loan_count"], unknownCall, [.number 0]]) (loans 50 0) =
        .ok (.number 0) := by
  have isArgument {ts : List Token} (closed : isClosed Token.isComma 0 ts = true) (full : ts ≠ []) :=
    isArgument_iff.mp (IsArgument.mk closed full)
  have takes := @choose_takes_one_branch chooseFunction rfl [.field "loan_count"] perLoan [.number 0]
    (isArgument rfl (by simp)) (isArgument rfl (by simp [perLoan])) (isArgument rfl (by simp)) (loans 50 0)
  have none : evaluate [.field "loan_count"] (loans 50 0) = .ok (.number 0) :=
    evaluate_field (by with_unfolding_all rfl) _
  have fails : ¬ (Value.number 0).Holds := by
    rw [← Value.isTruthy_iff]
    decide +kernel
  have second := (takes.takes_second none fails).trans (evaluate_number 0 _)
  have spared : evaluate (chooseFunction.callTokens [[.field "loan_count"], unknownCall, [.number 0]])
      (loans 50 0) = _ :=
    takes.spares_first (isArgument rfl (by simp [unknownCall])) fun v found => by
      rw [none] at found
      rwa [← Except.ok.inj found]
  exact ⟨second, by with_unfolding_all rfl, spared.trans second⟩

end RecordFormula
