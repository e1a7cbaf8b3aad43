import RecordFormula.Proofs.ScanSteps

/-!
# How tokens are written

A text that is read is a row of lexemes, one for each token, with blanks between some of them. What
ends a word is never part of one, save a point among digits.

`Written before cs ts`: the text `cs`, which stands behind the character `before`, writes the tokens
`ts`. What a lexeme is depends on its surroundings, since a word goes on as far as it can.

Results:
1. `Reading.goesOn_of_step`: what a step leaves to be written makes up, with the character it reads,
   what the scan had to write before it.
2. `written_of_tokenize`: a text writes the tokens that it is read as.
3. `Written.exists_lexeme`: each token has its place in the text.
-/

namespace RecordFormula

/-! ## Words -/

/-- Whether a character ends the word in front of it. -/
def EndsWord (c : Char) : Prop :=
  IsQuote c ∨ Text.isBlank c = true ∨ (Operator.ofChar? c).isSome = true

instance : DecidablePred EndsWord := fun c =>
  inferInstanceAs (Decidable (IsQuote c ∨ Text.isBlank c = true ∨ (Operator.ofChar? c).isSome = true))

/-- Whether a character goes on with a word wherever it stands. -/
def IsLetter (c : Char) : Prop := ¬ EndsWord c

instance : DecidablePred IsLetter := fun c => inferInstanceAs (Decidable (¬ EndsWord c))

/-- A word as it is written. -/
inductive IsWord : List Char → Prop
  | letters {word : List Char} : word ≠ [] → (∀ c ∈ word, IsLetter c) → IsWord word
  /-- A point stands behind digits, or else in front of a digit. -/
  | decimal (digits : List Char) {tail : List Char} :
      (∀ c ∈ digits, c.isDigit = true) → (∀ c ∈ tail, IsLetter c) →
      (digits = [] → tail.head?.any Char.isDigit = true) → IsWord (digits ++ '.' :: tail)

/-- A word with a 0 in front of the point that it starts with. -/
def withZero : List Char → List Char
  | '.' :: cs => '0' :: '.' :: cs
  | cs => cs

/-! ## Texts -/

/-- How a token is written behind the character `before` and in front of the text `behind`. -/
inductive IsLexeme (before : Option Char) (behind : List Char) : Token → List Char → Prop
  | operator (op : Operator) : IsLexeme before behind (.operator op) [op.char]
  | text {quote : Char} {letters : List Char} :
      IsQuote quote → quote ∉ letters →
      IsLexeme before behind (.text (String.ofList letters)) (quote :: (letters ++ [quote]))
  /-- A word is written whole: it starts where one can start, and goes on up to what ends it. -/
  | word {word : List Char} :
      (∀ c ∈ before, EndsWord c) → IsWord word → (∀ c ∈ behind.head?, EndsWord c) →
      IsLexeme before behind (classify (withZero word)) word

/-- How a text writes tokens. -/
inductive Written : Option Char → List Char → List Token → Prop
  | nil {before : Option Char} : Written before [] []
  | blank {before : Option Char} {c : Char} {cs : List Char} {ts : List Token} :
      Text.isBlank c = true → Written (some c) cs ts → Written before (c :: cs) ts
  | token {before : Option Char} {lexeme cs : List Char} {t : Token} {ts : List Token} :
      IsLexeme before cs t lexeme → Written lexeme.getLast? cs ts →
      Written before (lexeme ++ cs) (t :: ts)

namespace LexemesLemmas

variable {before : Option Char} {cs : List Char} {ts : List Token}

theorem written_operator {op : Operator} (written : Written (some op.char) cs ts) :
    Written before (op.char :: cs) (.operator op :: ts) :=
  .token (.operator op) written

theorem written_text {quote : Char} {letters : List Char} (isQuote : IsQuote quote)
    (absent : quote ∉ letters) (written : Written (some quote) cs ts) :
    Written before (quote :: (letters ++ quote :: cs)) (.text (String.ofList letters) :: ts) := by
  have last : (quote :: (letters ++ [quote])).getLast? = some quote := by
    rw [← List.cons_append, List.getLast?_concat]
  have whole : Written before (quote :: (letters ++ [quote]) ++ cs) _ :=
    .token (.text isQuote absent) (last ▸ written)
  rwa [List.cons_append, List.append_assoc, List.singleton_append] at whole

end LexemesLemmas

/-! ## The scan in the middle of a text -/

/-- How a word goes on whose first letters have been read. -/
inductive Continues (letters : List Char) : List Char → Prop
  | letters {more : List Char} : (∀ c ∈ more, IsLetter c) → Continues letters more
  | decimal (digits : List Char) {tail : List Char} :
      letters.all Char.isDigit = true → (∀ c ∈ digits, c.isDigit = true) →
      (∀ c ∈ tail, IsLetter c) → Continues letters (digits ++ '.' :: tail)

/-- What the rest of a text writes for a scan that is in the middle of something. -/
inductive Reading.GoesOn : Reading → List Char → List Token → Prop
  | between {cs : List Char} {ts : List Token} :
      (∀ before : Option Char, (∀ c ∈ before, EndsWord c) → Written before cs ts) →
      GoesOn (.word []) cs ts
  | word {letters : List Char} (more : List Char) {behind : List Char} {ts : List Token} :
      letters ≠ [] → Continues letters more → (∀ c ∈ behind.head?, EndsWord c) →
      (∀ before, Written before behind ts) →
      GoesOn (.word letters) (more ++ behind) (classify (letters.reverse ++ more) :: ts)
  | text {quote : Char} {start : Nat} {letters : List Char} (more : List Char) {behind : List Char}
      {ts : List Token} :
      quote ∉ more → (IsQuote quote → Written (some quote) behind ts) →
      GoesOn (.text quote start letters) (more ++ quote :: behind)
        (.text (String.ofList (letters.reverse ++ more)) :: ts)

namespace LexemesLemmas

variable {c : Char} {letters more behind cs : List Char} {ts : List Token}

theorem isLetter_iff :
    IsLetter c ↔ ¬ IsQuote c ∧ Text.isBlank c = false ∧ Operator.ofChar? c = none := by
  simp [IsLetter, EndsWord]

theorem endsWord_operator (op : Operator) : EndsWord op.char := by
  refine .inr (.inr ?_)
  rw [Operator.ofChar?_char]
  rfl

theorem isLetter_of_isDigit (digit : c.isDigit = true) : IsLetter c := by
  rw [Char.isDigit, Bool.and_eq_true, decide_eq_true_eq, decide_eq_true_eq] at digit
  obtain ⟨low, high⟩ := digit
  have low : 48 ≤ c.toNat := low
  have high : c.toNat ≤ 57 := high
  refine isLetter_iff.mpr ⟨?_, ?_, ?_⟩
  · rintro (rfl | rfl) <;> exact absurd low (by decide)
  · have apart : ∀ range ∈ Text.blankRanges, range.2 < 48 ∨ 57 < range.1 := by decide
    cases blank : Text.isBlank c with
    | false => rfl
    | true =>
      obtain ⟨range, mem, inside⟩ := Text.Ranges.has_iff.mp blank
      have := apart range mem
      omega
  · cases isOp : Operator.ofChar? c with
    | none => rfl
    | some op =>
      obtain rfl := Operator.ofChar?_eq_some isOp
      cases op <;> first | exact absurd low (by decide) | exact absurd high (by decide)

/-- Where a word can end, what has been read of it is a token. -/
theorem goesOn_of_flush (ends : ∀ c ∈ cs.head?, EndsWord c) (written : ∀ before, Written before cs ts) :
    (Reading.word letters).GoesOn cs (Scan.flush letters ++ ts) := by
  cases letters with
  | nil => exact .between fun before _ => written before
  | cons c letters =>
    have whole : (Reading.word (c :: letters)).GoesOn ([] ++ cs)
        (classify ((c :: letters).reverse ++ []) :: ts) :=
      .word [] (List.cons_ne_nil _ _) (.letters (by simp)) ends written
    rw [List.append_nil] at whole
    exact whole

theorem continues_of_letter (letter : IsLetter c) (continues : Continues (c :: letters) more) :
    Continues letters (c :: more) := by
  cases continues with
  | letters tail => exact .letters (List.forall_mem_cons.mpr ⟨letter, tail⟩)
  | @decimal digits tail read digit letters =>
    rw [List.all_cons, Bool.and_eq_true] at read
    exact .decimal (c :: digits) read.2 (List.forall_mem_cons.mpr ⟨read.1, digit⟩) letters

theorem continues_of_point (read : letters.all Char.isDigit = true)
    (continues : Continues ('.' :: letters) more) : Continues letters ('.' :: more) := by
  cases continues with
  | letters tail => exact .decimal [] read (by simp) tail
  | decimal _ point _ _ => exact absurd point (by simp)

theorem isWord_of_letter (letter : IsLetter c) (continues : Continues [c] more) :
    IsWord (c :: more) := by
  cases continues with
  | letters tail => exact .letters (List.cons_ne_nil _ _) (List.forall_mem_cons.mpr ⟨letter, tail⟩)
  | @decimal digits tail read digit letters =>
    have first : c.isDigit = true := by simpa using read
    exact .decimal (c :: digits) (List.forall_mem_cons.mpr ⟨first, digit⟩) letters (by simp)

theorem isWord_of_point (next : (more ++ behind).head?.any Char.isDigit = true)
    (ends : ∀ c ∈ behind.head?, EndsWord c) (continues : Continues ['.', '0'] more) :
    IsWord ('.' :: more) := by
  cases continues with
  | decimal _ point _ _ => exact absurd point (by decide)
  | letters tail =>
    refine .decimal [] (by simp) tail fun _ => ?_
    cases more with
    | cons d more => exact next
    | nil =>
      cases behind with
      | nil => exact absurd next (by simp)
      | cons d behind => exact absurd (ends d rfl) (isLetter_of_isDigit next)

theorem withZero_of_letter (letter : IsLetter c) : withZero (c :: more) = c :: more := by
  unfold withZero
  split
  · rename_i point
    obtain ⟨rfl, -⟩ := List.cons.inj point
    exact absurd (endsWord_operator .dot) letter
  · rfl

theorem written_of_word (word : List Char) (isWord : IsWord (word ++ more))
    (ends : ∀ c ∈ behind.head?, EndsWord c) (written : ∀ before, Written before behind ts)
    (before : Option Char) (starts : ∀ c ∈ before, EndsWord c) :
    Written before (word ++ (more ++ behind)) (classify (withZero (word ++ more)) :: ts) := by
  rw [← List.append_assoc]
  exact .token (.word starts isWord ends) (written _)

end LexemesLemmas

open LexemesLemmas

/-- What a step leaves to be written makes up, with the character that it reads, what was to be written
before. -/
theorem Reading.goesOn_of_step {scan next : Scan} {c : Char} {cs : List Char} {tokens ts : List Token}
    (step : Scan.Step cs.head? scan c tokens next) (goesOn : next.reading.GoesOn cs ts) :
    scan.reading.GoesOn (c :: cs) (tokens ++ ts) := by
  cases step with
  | verbatim inside =>
    cases goesOn with
    | @text _ _ _ more _ _ absent written =>
      rw [List.reverse_cons, List.append_assoc]
      refine .text (c :: more) ?_ written
      rw [List.mem_cons, not_or]
      exact ⟨inside.symm, absent⟩
  | unquote =>
    cases goesOn with
    | between written =>
      rw [List.singleton_append, ← List.append_nil (List.reverse _)]
      refine .text [] List.not_mem_nil fun isQuote => written _ ?_
      rintro _ ⟨⟩
      exact .inl isQuote
    | word _ full => exact absurd rfl full
  | quote isQuote =>
    cases goesOn with
    | text _ absent written =>
      refine goesOn_of_flush ?_ fun _ => written_text isQuote absent (written isQuote)
      rintro _ ⟨⟩
      exact .inl isQuote
  | blank _ isBlank =>
    have ends : EndsWord c := .inr (.inl isBlank)
    cases goesOn with
    | between written =>
      refine goesOn_of_flush ?_ fun _ => .blank isBlank (written _ ?_) <;> rintro _ ⟨⟩ <;> exact ends
    | word _ full => exact absurd rfl full
  | operator _ _ =>
    rename_i op _ _ _ _ _ _
    have ends := endsWord_operator op
    cases goesOn with
    | between written =>
      rw [List.append_assoc]
      refine goesOn_of_flush ?_ fun _ => written_operator (written _ ?_) <;> rintro _ ⟨⟩ <;> exact ends
    | word _ full => exact absurd rfl full
  | @letter _ _ letters _ _ noQuote noBlank noOperator =>
    have letter := isLetter_iff.mpr ⟨noQuote, noBlank, noOperator⟩
    cases goesOn with
    | @word _ more behind _ _ continues ends written =>
      cases letters with
      | nil =>
        refine .between fun before starts => ?_
        have isWord := isWord_of_letter letter continues
        have whole := written_of_word [c] isWord ends written before starts
        rwa [List.singleton_append, List.singleton_append, withZero_of_letter letter] at whole
      | cons d letters =>
        rw [List.reverse_cons, List.append_assoc]
        exact .word (c :: more) (List.cons_ne_nil _ _) (continues_of_letter letter continues)
          ends written
  | @point _ letters longer _ _ isPoint =>
    unfold Scan.point? at isPoint
    cases letters with
    | nil =>
      rw [List.isEmpty_nil, if_pos rfl] at isPoint
      split at isPoint
      · rename_i next
        obtain rfl := Option.some.inj isPoint
        cases goesOn with
        | @word _ more behind _ _ continues ends written =>
          refine .between fun before starts => ?_
          have isWord := isWord_of_point next ends continues
          exact written_of_word ['.'] isWord ends written before starts
      · exact absurd isPoint (by simp)
    | cons d letters =>
      rw [List.isEmpty_cons, if_neg (by simp)] at isPoint
      split at isPoint
      · rename_i read
        obtain rfl := Option.some.inj isPoint
        cases goesOn with
        | @word _ more behind _ _ continues ends written =>
          rw [List.reverse_cons, List.append_assoc]
          exact .word ('.' :: more) (List.cons_ne_nil _ _) (continues_of_point read continues)
            ends written
      · exact absurd isPoint (by simp)

/-- A scan that comes to its end has tokens for what it was in the middle of. -/
theorem Reading.goesOn_of_run {scan : Scan} {cs : List Char} {ts : List Token}
    (scanned : scan.run cs = .ok ts) : scan.reading.GoesOn cs ts := by
  induction cs generalizing scan ts with
  | nil =>
    rw [Scan.run] at scanned
    split at scanned
    · rename_i letters isWord
      obtain rfl := Except.ok.inj scanned
      rw [isWord, ← List.append_nil (Scan.flush letters)]
      exact goesOn_of_flush (by simp) fun _ => .nil
    · exact absurd scanned (by simp)
  | cons c cs ih =>
    obtain ⟨first, next, rest, step, behind, rfl⟩ := exists_of_run_cons scanned
    exact goesOn_of_step step (ih behind)

/-- A text writes the tokens that it is read as. -/
theorem written_of_tokenize {expression : String} {tokens : List Token}
    (read : tokenize expression = .ok tokens) : Written none expression.toList tokens := by
  have goesOn : (Reading.word []).GoesOn expression.toList tokens := Reading.goesOn_of_run read
  generalize expression.toList = cs at goesOn
  cases goesOn with
  | between written => exact written none (by simp)
  | word _ full => exact absurd rfl full

/-! ## Places -/

namespace LexemesLemmas

theorem ne_nil_of_isWord {word : List Char} (isWord : IsWord word) : word ≠ [] := by
  cases isWord with
  | letters full => exact full
  | decimal => simp

theorem ne_nil_of_isLexeme {before : Option Char} {behind lexeme : List Char} {t : Token}
    (isLexeme : IsLexeme before behind t lexeme) : lexeme ≠ [] := by
  cases isLexeme with
  | word _ isWord _ => exact ne_nil_of_isWord isWord
  | _ => exact List.cons_ne_nil _ _

theorem getLast?_append_or {before : Option Char} {lexeme front : List Char} (full : lexeme ≠ []) :
    (lexeme ++ front).getLast?.or before = front.getLast?.or lexeme.getLast? := by
  rw [List.getLast?_append, Option.or_assoc, List.getLast?_eq_some_getLast full, Option.some_or]

end LexemesLemmas

/-- A token stands in the text as its lexeme, and the tokens behind it are written behind that. -/
theorem Written.exists_lexeme {before : Option Char} {cs : List Char} {first rest : List Token}
    {t : Token} (written : Written before cs (first ++ t :: rest)) :
    ∃ front lexeme behind, cs = front ++ (lexeme ++ behind) ∧
      IsLexeme (front.getLast?.or before) behind t lexeme ∧ Written lexeme.getLast? behind rest := by
  generalize whole : first ++ t :: rest = ts at written
  induction written generalizing first with
  | nil => exact absurd whole (by simp)
  | @blank before c cs ts _ _ ih =>
    obtain ⟨front, lexeme, behind, rfl, isLexeme, rest⟩ := ih whole
    refine ⟨c :: front, lexeme, behind, rfl, ?_, rest⟩
    rwa [← List.singleton_append, getLast?_append_or (List.cons_ne_nil _ _)]
  | @token before lexeme cs s ts isLexeme tail ih =>
    cases first with
    | nil =>
      obtain ⟨rfl, rfl⟩ := List.cons.inj whole
      exact ⟨[], lexeme, cs, rfl, isLexeme, tail⟩
    | cons s' first =>
      obtain ⟨front, inner, behind, rfl, isInner, rest⟩ := ih (List.cons.inj whole).2
      refine ⟨lexeme ++ front, inner, behind, by rw [List.append_assoc], ?_, rest⟩
      rwa [getLast?_append_or (ne_nil_of_isLexeme isLexeme)]

end RecordFormula
