import RecordFormula.Proofs.Failure
import RecordFormula.Token.Lexer

/-!
# Steps of the scan from text to tokens

`Scan.Step after scan c tokens next`: at the character `c`, with `after` behind it, the scan completes
`tokens` and goes on as `next`. There is one rule for each thing that can happen at a character.

Results:
1. `step_eq_ok_iff`: the rules are what a scan does.
2. `run_eq_error`: a scan fails for a comparison that is split or for a text that is not ended.
-/

namespace RecordFormula

theorem classify_cases (word : List Char) :
    classify word = .function (Text.asciiUpper (String.ofList word)) ∨
      (∃ x, classify word = .number x) ∨ classify word = .field (String.ofList word) := by
  unfold classify
  dsimp only
  split
  · exact .inl rfl
  · split
    · exact .inr (.inl ⟨_, rfl⟩)
    · exact .inr (.inr rfl)

theorem operator?_classify (word : List Char) : (classify word).operator? = none := by
  rcases classify_cases word with isFunction | ⟨x, isNumber⟩ | isField
  · rw [isFunction]
    rfl
  · rw [isNumber]
    rfl
  · rw [isField]
    rfl

/-- Whether a quoted text starts at a character. -/
def IsQuote (c : Char) : Prop := c = '"' ∨ c = '\''

instance : DecidablePred IsQuote := fun c => inferInstanceAs (Decidable (c = '"' ∨ c = '\''))

/-- What happens at a character. -/
inductive Scan.Step (after : Option Char) : Scan → Char → List Token → Scan → Prop
  /-- A character of a quoted text. -/
  | verbatim {quote c : Char} {start offset : Nat} {letters : List Char} {spaced : Bool}
      {last : Option Operator} :
      c ≠ quote →
      Step after ⟨.text quote start letters, spaced, last, offset⟩ c []
        ⟨.text quote start (c :: letters), spaced, last, offset + c.utf8Size⟩
  /-- The end of a quoted text. -/
  | unquote {quote : Char} {start offset : Nat} {letters : List Char} {spaced : Bool}
      {last : Option Operator} :
      Step after ⟨.text quote start letters, spaced, last, offset⟩ quote
        [.text (String.ofList letters.reverse)]
        ⟨.word [], spaced, none, offset + quote.utf8Size⟩
  /-- The start of a quoted text. -/
  | quote {c : Char} {offset : Nat} {letters : List Char} {spaced : Bool} {last : Option Operator} :
      IsQuote c →
      Step after ⟨.word letters, spaced, last, offset⟩ c (flush letters)
        ⟨.text c offset [], spaced, lastAfter last letters, offset + c.utf8Size⟩
  | blank {c : Char} {offset : Nat} {letters : List Char} {spaced : Bool} {last : Option Operator} :
      ¬ IsQuote c → Text.isBlank c = true →
      Step after ⟨.word letters, spaced, last, offset⟩ c (flush letters)
        ⟨.word [], true, lastAfter last letters, offset + c.utf8Size⟩
  /-- A character of a word. -/
  | letter {c : Char} {offset : Nat} {letters : List Char} {spaced : Bool} {last : Option Operator} :
      ¬ IsQuote c → Text.isBlank c = false → Operator.ofChar? c = none →
      Step after ⟨.word letters, spaced, last, offset⟩ c []
        ⟨.word (c :: letters), spaced, last, offset + c.utf8Size⟩
  /-- A point that belongs to a number. -/
  | point {offset : Nat} {letters longer : List Char} {spaced : Bool} {last : Option Operator} :
      point? letters after = some longer →
      Step after ⟨.word letters, spaced, last, offset⟩ '.' []
        ⟨.word longer, spaced, last, offset + Char.utf8Size '.'⟩
  | operator {op : Operator} {offset : Nat} {letters : List Char} {spaced : Bool}
      {last : Option Operator} :
      (op = .dot → point? letters after = none) →
      (spaced = true → (lastAfter last letters).bind (Comparator.ofPair? · op) = none) →
      Step after ⟨.word letters, spaced, last, offset⟩ op.char (flush letters ++ [.operator op])
        ⟨.word [], false, some op, offset + op.char.utf8Size⟩

theorem step_of_eq_ok {scan next : Scan} {c : Char} {after : Option Char} {tokens : List Token}
    (stepped : scan.step c after = .ok (tokens, next)) : Scan.Step after scan c tokens next := by
  obtain ⟨reading, spaced, last, offset⟩ := scan
  cases reading with
  | text quote start letters =>
    rw [Scan.step] at stepped
    dsimp only at stepped
    split at stepped
    · rename_i closes
      subst closes
      obtain ⟨rfl, rfl⟩ := Prod.mk.inj (Except.ok.inj stepped)
      exact .unquote
    · rename_i inside
      obtain ⟨rfl, rfl⟩ := Prod.mk.inj (Except.ok.inj stepped)
      exact .verbatim inside
  | word letters =>
    rw [Scan.step] at stepped
    dsimp only at stepped
    split at stepped
    · rename_i isQuote
      obtain ⟨rfl, rfl⟩ := Prod.mk.inj (Except.ok.inj stepped)
      exact .quote (by simpa [IsQuote] using isQuote)
    · rename_i isQuote
      have noQuote : ¬ IsQuote c := by simpa [IsQuote] using isQuote
      split at stepped
      · rename_i isBlank
        obtain ⟨rfl, rfl⟩ := Prod.mk.inj (Except.ok.inj stepped)
        exact .blank noQuote isBlank
      · rename_i isBlank
        split at stepped
        · rename_i isLetter
          obtain ⟨rfl, rfl⟩ := Prod.mk.inj (Except.ok.inj stepped)
          exact .letter noQuote (by simpa using isBlank) isLetter
        · rename_i op isOp
          obtain rfl := Operator.ofChar?_eq_some isOp
          split at stepped
          · rename_i longer isPoint
            obtain ⟨rfl, rfl⟩ := Prod.mk.inj (Except.ok.inj stepped)
            split at isPoint
            · rename_i dot
              subst dot
              exact .point isPoint
            · exact absurd isPoint (by simp)
          · rename_i noPoint
            split at stepped
            · exact absurd stepped (by simp)
            · rename_i unsplit
              obtain ⟨rfl, rfl⟩ := Prod.mk.inj (Except.ok.inj stepped)
              refine .operator (fun dot => ?_) fun isSpaced => ?_
              · rwa [if_pos dot] at noPoint
              · rwa [if_pos isSpaced] at unsplit

theorem operator_apart (op : Operator) :
    (op.char = '"' || op.char = '\'') = false ∧ Text.isBlank op.char = false := by
  cases op <;> decide

/-- The rules say what a step of the scan is. -/
theorem step_eq_ok_iff {scan next : Scan} {c : Char} {after : Option Char} {tokens : List Token} :
    scan.step c after = .ok (tokens, next) ↔ Scan.Step after scan c tokens next := by
  refine ⟨step_of_eq_ok, fun step => ?_⟩
  cases step with
  | verbatim inside =>
    rw [Scan.step]
    exact if_neg inside
  | unquote =>
    rw [Scan.step]
    exact if_pos rfl
  | quote isQuote =>
    rw [Scan.step]
    refine if_pos ?_
    simpa [IsQuote] using isQuote
  | blank noQuote isBlank =>
    rw [Scan.step]
    refine (if_neg ?_).trans (if_pos isBlank)
    simpa [IsQuote] using noQuote
  | letter noQuote noBlank noOperator =>
    rw [Scan.step]
    refine (if_neg ?_).trans ((if_neg (by simp [noBlank])).trans ?_)
    · simpa [IsQuote] using noQuote
    · rw [noOperator]
  | point isPoint =>
    obtain ⟨noQuote, noBlank⟩ :
        ('.' = '"' || '.' = '\'') = false ∧ Text.isBlank '.' = false := operator_apart .dot
    have isDot : Operator.ofChar? '.' = some .dot := Operator.ofChar?_char .dot
    rw [Scan.step]
    simp only [noQuote, noBlank, Bool.false_eq_true, if_false, isDot, if_true, isPoint]
  | @operator op _ _ _ _ noPoint unsplit =>
    obtain ⟨noQuote, noBlank⟩ := operator_apart op
    rw [Scan.step]
    simp only [noQuote, noBlank, Bool.false_eq_true, if_false, Operator.ofChar?_char,
      ite_eq_right_iff.mpr noPoint, ite_eq_right_iff.mpr unsplit]

/-- Behind blanks an operator is refused that makes a comparison of the operator in front of them. -/
theorem step_eq_splitComparator {op : Operator} {pair : Comparator} {letters : List Char}
    {last : Option Operator} {offset : Nat} {after : Option Char}
    (noPoint : op = .dot → Scan.point? letters after = none)
    (split : (Scan.lastAfter last letters).bind (Comparator.ofPair? · op) = some pair) :
    Scan.step ⟨.word letters, true, last, offset⟩ op.char after = .error (.splitComparator pair) := by
  obtain ⟨noQuote, noBlank⟩ := operator_apart op
  rw [Scan.step]
  simp only [noQuote, noBlank, Bool.false_eq_true, if_false, Operator.ofChar?_char,
    ite_eq_right_iff.mpr noPoint, if_true, split]

/-- A step fails for a comparison that is split: between words, blanks are behind an operator that makes a
comparison with the character. -/
theorem splits_of_step_eq_error {scan : Scan} {c : Char} {after : Option Char} {reason : ParseError}
    (failed : scan.step c after = .error reason) :
    ∃ first second pair, scan.reading = .word [] ∧ scan.spaced = true ∧ scan.last = some first ∧
      c = second.char ∧ Comparator.ofPair? first second = some pair ∧
      reason = .splitComparator pair := by
  obtain ⟨reading, spaced, last, offset⟩ := scan
  cases reading with
  | text quote start letters =>
    rw [Scan.step] at failed
    dsimp only at failed
    split at failed <;> exact absurd failed (by simp)
  | word letters =>
    rw [Scan.step] at failed
    dsimp only at failed
    split at failed
    · exact absurd failed (by simp)
    · split at failed
      · exact absurd failed (by simp)
      · split at failed
        · exact absurd failed (by simp)
        · rename_i second isOp
          split at failed
          · exact absurd failed (by simp)
          · split at failed
            · rename_i pair found
              split at found
              · rename_i isSpaced
                obtain ⟨first, isLast, isPair⟩ := Option.bind_eq_some_iff.mp found
                cases letters with
                | nil =>
                  exact ⟨first, second, pair, rfl, isSpaced, isLast, Operator.ofChar?_eq_some isOp, isPair,
                    (Except.error.inj failed).symm⟩
                | cons => exact absurd isLast (by simp [Scan.lastAfter])
              · exact absurd found (by simp)
            · exact absurd failed (by simp)

theorem exists_of_run_cons {scan : Scan} {c : Char} {cs : List Char} {tokens : List Token}
    (scanned : scan.run (c :: cs) = .ok tokens) :
    ∃ first next rest, Scan.Step cs.head? scan c first next ∧ next.run cs = .ok rest ∧
      tokens = first ++ rest := by
  obtain ⟨⟨first, next⟩, stepped, scanned⟩ := exists_of_bind_eq_ok scanned
  obtain ⟨rest, behind, scanned⟩ := exists_of_bind_eq_ok scanned
  exact ⟨first, next, rest, step_of_eq_ok stepped, behind, (Except.ok.inj scanned).symm⟩

theorem run_cons {scan next : Scan} {c : Char} {cs : List Char} {tokens : List Token}
    (step : Scan.Step cs.head? scan c tokens next) :
    scan.run (c :: cs) = (next.run cs).map (tokens ++ ·) := by
  rw [Scan.run, step_eq_ok_iff.mpr step]
  show next.run cs >>= _ = _
  cases next.run cs <;> rfl

theorem exists_of_run_eq_error {scan : Scan} {c : Char} {cs : List Char} {reason : ParseError}
    (failed : scan.run (c :: cs) = .error reason) :
    scan.step c cs.head? = .error reason ∨
      ∃ tokens next, Scan.Step cs.head? scan c tokens next ∧ next.run cs = .error reason := by
  rcases of_bind_eq_error failed with failed | ⟨⟨first, next⟩, stepped, failed⟩
  · exact .inl failed
  · rcases of_bind_eq_error failed with failed | ⟨rest, -, failed⟩
    · exact .inr ⟨first, next, step_eq_ok_iff.mp stepped, failed⟩
    · exact absurd failed (by simp [pure, Except.pure])

/-- A scan fails for a comparison that is split or a text that is not ended. -/
theorem run_eq_error {scan : Scan} {cs : List Char} {reason : ParseError}
    (failed : scan.run cs = .error reason) :
    (∃ pair, reason = .splitComparator pair) ∨ ∃ offset, reason = .unterminatedText offset := by
  induction cs generalizing scan with
  | nil =>
    rw [Scan.run] at failed
    split at failed
    · exact absurd failed (by simp)
    · rename_i start _ _
      exact .inr ⟨start, (Except.error.inj failed).symm⟩
  | cons c cs ih =>
    rcases exists_of_run_eq_error failed with failed | ⟨tokens, next, -, failed⟩
    · obtain ⟨-, -, pair, -, -, -, -, -, rfl⟩ := splits_of_step_eq_error failed
      exact .inl ⟨pair, rfl⟩
    · exact ih failed

end RecordFormula
