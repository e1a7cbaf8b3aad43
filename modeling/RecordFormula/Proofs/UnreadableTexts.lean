import RecordFormula.Proofs.Joining

/-!
# Texts that cannot be read

Reading fails in two cases. A quoted text is not ended, or blanks split a comparison of two characters.
Whichever comes first in a text decides. Up to its fault a text can be read, and so what is in front of the
fault says what the fault is.

Results:
1. `run_of_open` and `open_of_run`: a scan fails at a quote that does not come again.
2. `run_of_split` and `split_of_run`: it fails at the second half of a comparison that blanks split.
3. `tokenize_fails_in_two_cases`: so texts that cannot be read are of these two kinds, and all others are
   read.
-/

namespace RecordFormula

open JoiningLemmas

/-- Texts that quote something and do not end it: `offset` is the number of bytes in front of the quote. What
is in front can be read, so the quote is not itself in a quoted text. -/
def LeavesTextOpen (expression : String) (offset : Nat) : Prop :=
  ∃ (before : String) (quote : Char) (behind : String),
    expression = before ++ String.singleton quote ++ behind ∧ IsQuote quote ∧ quote ∉ behind.toList ∧
      offset = before.utf8ByteSize ∧ ∃ ts, tokenize before = .ok ts

/-- Texts with blanks between the two characters of a comparison. The first of them is read as an operator, so
it is not in a quoted text. -/
def SplitsComparison (expression : String) (pair : Comparator) : Prop :=
  ∃ (before : String) (first : Operator) (blanks : String) (second : Operator) (behind : String),
    expression = before ++ first.text ++ blanks ++ second.text ++ behind ∧
      Comparator.ofPair? first second = some pair ∧ blanks ≠ "" ∧
      (∀ c ∈ blanks.toList, Text.isBlank c = true) ∧
      ∃ ts, tokenize (before ++ first.text) = .ok (ts ++ [.operator first])

namespace UnreadableTextsLemmas

variable {scan next : Scan} {c quote : Char} {front behind cs letters : List Char} {tokens ts : List Token}
  {offset : Nat} {spaced : Bool} {last : Option Operator}

theorem offset_of_step {after : Option Char} (step : Scan.Step after scan c tokens next) :
    next.offset = scan.offset + c.utf8Size := by
  cases step <;> rfl

/-- A step is the same in front of another text, unless this starts with a digit. -/
theorem step_append (plain : behind.head?.any Char.isDigit = false) :
    Scan.Step (front ++ behind).head? scan c tokens next ↔ Scan.Step front.head? scan c tokens next := by
  have digit : (front ++ behind).head?.any Char.isDigit = front.head?.any Char.isDigit := by
    cases front with
    | nil => exact plain
    | cons => rfl
  rw [← step_eq_ok_iff, ← step_eq_ok_iff, step_congr digit]

theorem run_cons_eq_ok (step : Scan.Step front.head? scan c tokens next) (read : next.run front = .ok ts) :
    scan.run (c :: front) = .ok (tokens ++ ts) := by
  rw [run_cons step, read]
  rfl

theorem run_cons_eq_error {reason : ParseError} (step : Scan.Step front.head? scan c tokens next)
    (failed : next.run front = .error reason) : scan.run (c :: front) = .error reason := by
  rw [run_cons step, failed]
  rfl

/-! ### Quotes -/

theorem plain_of_isQuote (isQuote : IsQuote quote) :
    (quote :: behind).head?.any Char.isDigit = false := by
  rcases isQuote with rfl | rfl <;> rfl

theorem utf8ByteSize_cons :
    (String.ofList (c :: cs)).utf8ByteSize = c.utf8Size + (String.ofList cs).utf8ByteSize := by
  rw [String.ofList_cons, String.utf8ByteSize_append, String.utf8ByteSize_singleton]

theorem run_text {start : Nat} (absent : quote ∉ cs) :
    Scan.run ⟨.text quote start letters, spaced, last, offset⟩ cs = .error (.unterminatedText start) := by
  induction cs generalizing letters offset with
  | nil => rfl
  | cons c cs ih =>
    rw [List.mem_cons, not_or] at absent
    obtain ⟨inside, absent⟩ := absent
    exact run_cons_eq_error (.verbatim (Ne.symm inside)) (ih absent)

end UnreadableTextsLemmas

open UnreadableTextsLemmas

/-- Behind what a scan reads, it fails at a quote that does not come again. -/
theorem run_of_open {scan : Scan} {front behind : List Char} {quote : Char} {ts : List Token}
    (read : scan.run front = .ok ts) (isQuote : IsQuote quote) (absent : quote ∉ behind) :
    scan.run (front ++ quote :: behind) =
      .error (.unterminatedText (scan.offset + (String.ofList front).utf8ByteSize)) := by
  induction front generalizing scan ts with
  | nil =>
    obtain ⟨reading, spaced, last, offset⟩ := scan
    cases reading with
    | text => exact absurd read (by simp [Scan.run])
    | word letters => exact run_cons_eq_error (.quote isQuote) (run_text absent)
  | cons c front ih =>
    obtain ⟨first, next, rest, step, read, -⟩ := exists_of_run_cons read
    have step := (step_append (@plain_of_isQuote _ behind isQuote)).mpr step
    rw [utf8ByteSize_cons, ← Nat.add_assoc, ← offset_of_step step]
    exact run_cons_eq_error step (ih read)

/-- A scan that fails for a text that is not ended is in the middle of this text, or comes to its quote behind
what it reads. -/
theorem open_of_run {scan : Scan} {cs : List Char} {offset : Nat}
    (failed : scan.run cs = .error (.unterminatedText offset)) :
    (∃ quote letters, scan.reading = .text quote offset letters ∧ quote ∉ cs) ∨
      ∃ front quote behind ts, cs = front ++ quote :: behind ∧ IsQuote quote ∧ quote ∉ behind ∧
        offset = scan.offset + (String.ofList front).utf8ByteSize ∧ scan.run front = .ok ts := by
  induction cs generalizing scan with
  | nil =>
    obtain ⟨reading, spaced, last, start⟩ := scan
    cases reading with
    | word letters => exact absurd failed (by simp [Scan.run])
    | text quote start letters =>
      obtain rfl := ParseError.unterminatedText.inj (Except.error.inj failed)
      exact .inl ⟨quote, letters, rfl, List.not_mem_nil⟩
  | cons c cs ih =>
    rcases exists_of_run_eq_error failed with failed | ⟨tokens, next, step, failed⟩
    · obtain ⟨-, -, pair, -, -, -, -, -, split⟩ := splits_of_step_eq_error failed
      exact absurd split (by simp)
    · rcases ih failed with
        ⟨quote, letters, isText, absent⟩ | ⟨front, quote, behind, ts, rfl, isQuote, absent, rfl, read⟩
      · cases step with
        | verbatim inside =>
          obtain ⟨rfl, rfl, -⟩ := Reading.text.inj isText
          refine .inl ⟨_, _, rfl, ?_⟩
          rw [List.mem_cons, not_or]
          exact ⟨Ne.symm inside, absent⟩
        | quote isQuote =>
          obtain ⟨rfl, rfl, -⟩ := Reading.text.inj isText
          exact .inr ⟨[], _, cs, _, rfl, isQuote, absent, rfl, rfl⟩
        | _ => exact absurd isText (by simp)
      · have step := (step_append (plain_of_isQuote isQuote)).mp step
        refine .inr ⟨c :: front, quote, behind, _, rfl, isQuote, absent, ?_, run_cons_eq_ok step read⟩
        rw [utf8ByteSize_cons, offset_of_step step, Nat.add_assoc]

/-! ## Comparisons -/

namespace UnreadableTextsLemmas

variable {first second : Operator} {pair : Comparator} {blanks behind : List Char}

theorem plain_of_blanks (full : blanks ≠ []) (areBlank : ∀ c ∈ blanks, Text.isBlank c = true) :
    (blanks ++ behind).head?.any Char.isDigit = false := by
  cases blanks with
  | nil => exact absurd rfl full
  | cons blank more => exact not_isDigit_of_isBlank (areBlank blank List.mem_cons_self)

theorem ne_dot_of_ofPair? (isPair : Comparator.ofPair? first second = some pair) :
    first ≠ .dot ∧ second ≠ .dot := by
  constructor <;> rintro rfl
  · exact absurd isPair (by simp [Comparator.ofPair?])
  · cases first <;> exact absurd isPair (by simp [Comparator.ofPair?])

end UnreadableTextsLemmas

/-- Behind what a scan reads, it fails at the second half of a comparison, if blanks are behind the first. -/
theorem run_of_split {scan : Scan} {front blanks behind : List Char} {ts : List Token}
    {first second : Operator} {pair : Comparator} (read : scan.run front = .ok (ts ++ [.operator first]))
    (isPair : Comparator.ofPair? first second = some pair) (full : blanks ≠ [])
    (areBlank : ∀ c ∈ blanks, Text.isBlank c = true) :
    scan.run (front ++ (blanks ++ second.char :: behind)) = .error (.splitComparator pair) := by
  cases blanks with
  | nil => exact absurd rfl full
  | cons blank more =>
    obtain ⟨isBlank, areBlank⟩ := List.forall_mem_cons.mp areBlank
    obtain ⟨offset, before⟩ := run_append_blank read isBlank
    obtain ⟨offset', between⟩ := @run_blanks (some first) more areBlank offset
    have last : lastOperator scan.last (ts ++ [.operator first]) = some first := by
      rw [lastOperator_append]
      rfl
    have refused := @step_eq_splitComparator second pair [] (some first) offset' behind.head?
      (fun dot => absurd dot (ne_dot_of_ofPair? isPair).2) isPair
    rw [List.cons_append, before, last, between, Scan.run, refused]
    rfl

/-- A scan that fails for a comparison that is split has come to the first half before, or comes to both. -/
theorem split_of_run {scan : Scan} {cs : List Char} {pair : Comparator}
    (failed : scan.run cs = .error (.splitComparator pair)) :
    ∃ first blanks second behind, Comparator.ofPair? first second = some pair ∧
      (∀ c ∈ blanks, Text.isBlank c = true) ∧
      ((cs = blanks ++ second.char :: behind ∧ scan.reading = .word [] ∧ scan.last = some first ∧
          (scan.spaced = true ∨ blanks ≠ [])) ∨
        ∃ front ts, cs = front ++ first.char :: (blanks ++ second.char :: behind) ∧ blanks ≠ [] ∧
          scan.run (front ++ [first.char]) = .ok (ts ++ [.operator first])) := by
  induction cs generalizing scan with
  | nil =>
    obtain ⟨reading, spaced, last, offset⟩ := scan
    cases reading <;> exact absurd failed (by simp [Scan.run])
  | cons c cs ih =>
    rcases exists_of_run_eq_error failed with failed | ⟨tokens, next, step, failed⟩
    · obtain ⟨first, second, pair', between, isSpaced, isLast, rfl, isPair, same⟩ :=
        splits_of_step_eq_error failed
      obtain rfl := ParseError.splitComparator.inj same
      exact ⟨first, [], second, cs, isPair, by simp, .inl ⟨rfl, between, isLast, .inl isSpaced⟩⟩
    · obtain ⟨first, blanks, second, behind, isPair, areBlank, place⟩ := ih failed
      rcases place with ⟨rfl, between, isLast, spacedOrFull⟩ | ⟨front, ts, rfl, full, read⟩
      · have alone (full : blanks ≠ []) : Scan.Step none scan c tokens next :=
          (@step_append _ _ _ [] _ _ (plain_of_blanks full areBlank)).mp step
        cases step with
        | blank noQuote isBlank =>
          rename_i letters _ _ _
          refine ⟨first, c :: blanks, second, behind, isPair, List.forall_mem_cons.mpr ⟨isBlank, areBlank⟩,
            .inl ⟨rfl, ?_⟩⟩
          cases letters with
          | nil => exact ⟨rfl, isLast, .inr (List.cons_ne_nil _ _)⟩
          | cons => exact absurd isLast (by simp [Scan.lastAfter])
        | operator noPoint unsplit =>
          rename_i op _ letters _ _ _
          obtain rfl := Option.some.inj isLast
          have full : blanks ≠ [] := spacedOrFull.resolve_left (by simp)
          refine ⟨op, blanks, second, behind, isPair, areBlank, .inr ⟨[], Scan.flush letters, rfl, full, ?_⟩⟩
          rw [List.nil_append, ← List.append_nil (_ ++ [_])]
          exact run_cons_eq_ok (alone full) rfl
        | point isPoint =>
          obtain rfl := Reading.word.inj between
          exact absurd rfl (ne_nil_of_point? isPoint)
        | unquote => exact absurd isLast (by simp)
        | _ => exact absurd between (by simp)
      · have same : (front ++ first.char :: (blanks ++ second.char :: behind)).head? =
            (front ++ [first.char]).head? := by
          cases front <;> rfl
        rw [same] at step
        refine ⟨first, blanks, second, behind, isPair, areBlank,
          .inr ⟨c :: front, tokens ++ ts, rfl, full, ?_⟩⟩
        rw [List.append_assoc]
        exact run_cons_eq_ok step read

/-! ## Texts -/

/-- A text in quotes that is not ended, and nothing else, is reported with the place of its quote. -/
theorem tokenize_eq_unterminated_iff {expression : String} {offset : Nat} :
    tokenize expression = .error (.unterminatedText offset) ↔ LeavesTextOpen expression offset := by
  constructor
  · intro failed
    rcases open_of_run failed with
      ⟨_, _, isText, -⟩ | ⟨front, quote, behind, ts, whole, isQuote, absent, same, read⟩
    · exact absurd isText (by simp [Scan.initial])
    · refine ⟨.ofList front, quote, .ofList behind, ?_, isQuote, ?_, ?_, ts, ?_⟩
      · rw [← String.toList_inj, whole]
        simp
      · rwa [String.toList_ofList]
      · rw [same]
        exact Nat.zero_add _
      · rwa [tokenize, String.toList_ofList]
  · rintro ⟨before, quote, behind, rfl, isQuote, absent, rfl, ts, read⟩
    have failed := run_of_open read isQuote absent
    rw [String.ofList_toList] at failed
    rw [tokenize, String.toList_append, String.toList_append, String.toList_singleton, List.append_assoc]
    refine failed.trans ?_
    rw [Scan.initial, Nat.zero_add]

/-- A comparison that blanks split, and nothing else, is reported as that. -/
theorem tokenize_eq_split_iff {expression : String} {pair : Comparator} :
    tokenize expression = .error (.splitComparator pair) ↔ SplitsComparison expression pair := by
  constructor
  · intro failed
    obtain ⟨first, blanks, second, behind, isPair, areBlank, place⟩ := split_of_run failed
    rcases place with ⟨-, -, isLast, -⟩ | ⟨front, ts, whole, full, read⟩
    · exact absurd isLast (by simp [Scan.initial])
    · refine ⟨.ofList front, first, .ofList blanks, second, .ofList behind, ?_, isPair, ?_, ?_, ts, ?_⟩
      · rw [← String.toList_inj, whole]
        simp [Operator.text]
      · intro empty
        exact full (by simpa using congrArg String.toList empty)
      · rwa [String.toList_ofList]
      · rwa [tokenize, String.toList_append, String.toList_ofList, Operator.text, Char.toString,
          String.toList_singleton]
  · rintro ⟨before, first, blanks, second, behind, rfl, isPair, full, areBlank, ts, read⟩
    have full : blanks.toList ≠ [] := mt String.toList_eq_nil_iff.mp full
    have failed := @run_of_split _ _ _ behind.toList _ _ _ _ read isPair full areBlank
    rw [tokenize]
    simpa [Operator.text] using failed

/-- Reading fails at a quoted text that is not ended and at a comparison that blanks split, at whichever comes
first, and in no other case. -/
theorem tokenize_fails_in_two_cases (expression : String) :
    (∀ offset, tokenize expression = .error (.unterminatedText offset) ↔
        LeavesTextOpen expression offset) ∧
      (∀ pair, tokenize expression = .error (.splitComparator pair) ↔
        SplitsComparison expression pair) ∧
      ((∃ ts, tokenize expression = .ok ts) ↔
        (∀ offset, ¬ LeavesTextOpen expression offset) ∧ ∀ pair, ¬ SplitsComparison expression pair) := by
  refine ⟨fun _ => tokenize_eq_unterminated_iff, fun _ => tokenize_eq_split_iff, ?_, ?_⟩
  · rintro ⟨ts, read⟩
    refine ⟨fun offset leaves => ?_, fun pair splits => ?_⟩
    · exact absurd (read.symm.trans (tokenize_eq_unterminated_iff.mpr leaves)) (by simp)
    · exact absurd (read.symm.trans (tokenize_eq_split_iff.mpr splits)) (by simp)
  · rintro ⟨ended, whole⟩
    cases read : tokenize expression with
    | ok ts => exact ⟨ts, rfl⟩
    | error reason =>
      rcases run_eq_error read with ⟨pair, rfl⟩ | ⟨offset, rfl⟩
      · exact absurd (tokenize_eq_split_iff.mp read) (whole pair)
      · exact absurd (tokenize_eq_unterminated_iff.mp read) (ended offset)

end RecordFormula
