import RecordFormula.Error

/-!
# Kinds of errors

An error shows names and tokens as the expression has them. Its kind is the error without them. So errors of
one kind have the same cause and differ at most in the words that they show.

`EndsAlike` relates two runs that both fail, with errors of one kind, or both have values, which are related.

Results:
1. `EndsAlike.bind`: two runs end alike if their parts do.
2. `EndsAlike.trans`: runs that end alike can be chained.
-/

namespace RecordFormula

/-- The gap without the name it shows. -/
def Gap.kind : Gap → Gap
  | .arguments _ => .arguments ""
  | gap => gap

/-- The error without the names and tokens it shows. -/
def ConditionError.kind : ConditionError → ConditionError
  | .outsideAggregate _ => .outsideAggregate ""
  | .missingValue _ => .missingValue ""
  | .expectedField _ => .expectedField ""
  | .expectedComparator _ => .expectedComparator ""
  | .expectedLiteral _ op => .expectedLiteral "" op
  | .textOrder _ op => .textOrder "" op
  | .trailing _ => .trailing ""
  | reason => reason

/-- The error without the names and tokens it shows. -/
def ParseError.kind : ParseError → ParseError
  | .emptyCall _ => .emptyCall ""
  | .leadingComma _ => .leadingComma ""
  | .trailingComma _ => .trailingComma ""
  | .emptyArgument _ => .emptyArgument ""
  | .incomplete gap => .incomplete gap.kind
  | .unexpectedToken _ => .unexpectedToken ""
  | .invalidCondition reason => .invalidCondition reason.kind
  | reason => reason

/-- The error without the names and tokens it shows. -/
def EvalError.kind : EvalError → EvalError
  | .unsupportedFunction _ => .unsupportedFunction ""
  | .missingField _ => .missingField ""
  | .noRecordContext _ => .noRecordContext ""
  | .malformed reason => .malformed reason.kind
  | reason => reason

/-- The error without the names and tokens it shows, if it is one of reading or of evaluation. -/
def FormulaError.kind : FormulaError → FormulaError
  | .parse reason => .parse reason.kind
  | .evaluation reason => .evaluation reason.kind
  | reason => reason

/-- Two runs that both fail, with errors of one kind, or both have values, which `R` relates. -/
inductive EndsAlike {ε α β : Type} (kind : ε → ε) (R : α → β → Prop) : Except ε α → Except ε β → Prop
  | ok {a : α} {b : β} : R a b → EndsAlike kind R (.ok a) (.ok b)
  | error {reason reason' : ε} :
      kind reason = kind reason' → EndsAlike kind R (.error reason) (.error reason')

namespace EndsAlike

variable {ε α β γ δ : Type} {kind : ε → ε} {R : α → β → Prop} {S : γ → δ → Prop}

theorem self {T : α → α → Prop} (related : ∀ a, T a a) (x : Except ε α) : EndsAlike kind T x x := by
  cases x with
  | error => exact .error rfl
  | ok a => exact .ok (related a)

theorem refl (x : Except ε α) : EndsAlike kind Eq x x := self (fun _ => rfl) x

theorem symm {x y : Except ε α} (alike : EndsAlike kind Eq x y) : EndsAlike kind Eq y x := by
  cases alike with
  | error same => exact .error same.symm
  | ok same => exact .ok same.symm

theorem trans {R : α → α → Prop} {x y z : Except ε α} (transitive : ∀ {a b c}, R a b → R b c → R a c)
    (first : EndsAlike kind R x y) (second : EndsAlike kind R y z) : EndsAlike kind R x z := by
  cases first with
  | error same =>
    cases second with
    | error same' => exact .error (same.trans same')
  | ok related =>
    cases second with
    | ok related' => exact .ok (transitive related related')

theorem bind {x : Except ε α} {y : Except ε β} {f : α → Except ε γ} {g : β → Except ε δ}
    (first : EndsAlike kind R x y)
    (second : ∀ a b, x = .ok a → y = .ok b → R a b → EndsAlike kind S (f a) (g b)) :
    EndsAlike kind S (x >>= f) (y >>= g) := by
  cases first with
  | error same => exact .error same
  | ok related => exact second _ _ rfl rfl related

theorem bind_eq {x y : Except ε α} {f : α → Except ε γ} {g : α → Except ε δ} (first : EndsAlike kind Eq x y)
    (second : ∀ a, x = .ok a → EndsAlike kind S (f a) (g a)) : EndsAlike kind S (x >>= f) (y >>= g) :=
  first.bind fun a _ found _ same => same ▸ second a found

theorem map {x y : Except ε α} (alike : EndsAlike kind Eq x y) (f : α → γ) :
    EndsAlike kind Eq (x.map f) (y.map f) := by
  cases alike with
  | error same => exact .error same
  | ok same => exact .ok (congrArg f same)

end EndsAlike

end RecordFormula
