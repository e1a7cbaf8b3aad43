import RecordFormula.Proofs.Lexemes

/-!
# Joined texts

Two texts with blanks between them are read as one is and then the other. All that a scan takes along from the
first is the operator that it may have ended in, and all that this can do is to be half of a comparison.

Results:
1. `run_append_blank`: in front of a blank a scan has read what it reads of the text by itself.
2. `run_alike`: what else a scan remembers, it does not use.
3. `run_behind`: behind blanks and an operator a text is read as ever, unless it starts with the other half.
4. `tokenize_joined`: so joined texts have the tokens of both, or a comparison is split between them.
-/

namespace RecordFormula

open LexemesLemmas

/-- The last of some tokens if it is an operator; without tokens, the operator in front of them. -/
def lastOperator (last : Option Operator) (ts : List Token) : Option Operator :=
  match ts.getLast? with
  | some t => t.operator?
  | none => last

/-- The comparison that an operator makes with the first of some tokens. -/
def pairAcross? (last : Option Operator) (ts : List Token) : Option Comparator :=
  last.bind fun op => (ts.head?.bind Token.operator?).bind (Comparator.ofPair? op)

/-! ## The first text -/

namespace JoiningLemmas

variable {scan next : Scan} {c : Char} {after after' : Option Char} {tokens ts : List Token}
  {cs letters : List Char} {last : Option Operator}

theorem lastOperator_append (ts more : List Token) :
    lastOperator last (ts ++ more) = lastOperator (lastOperator last ts) more := by
  unfold lastOperator
  rw [List.getLast?_append]
  cases more.getLast? <;> rfl

theorem lastOperator_flush : lastOperator last (Scan.flush letters) = Scan.lastAfter last letters := by
  cases letters with
  | nil => rfl
  | cons c letters =>
    show (classify (c :: letters).reverse).operator? = none
    exact operator?_classify _

theorem last_of_step (step : Scan.Step after scan c tokens next) :
    next.last = lastOperator scan.last tokens := by
  cases step with
  | quote _ | blank _ _ => exact lastOperator_flush.symm
  | operator _ _ =>
    rw [lastOperator_append]
    rfl
  | _ => rfl

/-- Of what is behind a character, only whether it is a digit matters. -/
theorem step_congr (same : after.any Char.isDigit = after'.any Char.isDigit) :
    scan.step c after = scan.step c after' := by
  simp only [Scan.step, Scan.point?, same]

theorem not_isQuote_of_isBlank (isBlank : Text.isBlank c = true) : ¬ IsQuote c := by
  rintro (rfl | rfl) <;> exact absurd isBlank (by decide)

theorem not_isDigit_of_isBlank (isBlank : Text.isBlank c = true) : c.isDigit = false :=
  Bool.eq_false_iff.mpr fun digit => isLetter_of_isDigit digit (.inr (.inl isBlank))

theorem run_blank {spaced : Bool} {offset : Nat} (isBlank : Text.isBlank c = true) :
    Scan.run ⟨.word [], spaced, last, offset⟩ (c :: cs) =
      Scan.run ⟨.word [], true, last, offset + c.utf8Size⟩ cs :=
  (run_cons (.blank (not_isQuote_of_isBlank isBlank) isBlank)).trans (congrFun Except.map_id _)

theorem run_blanks {blanks : List Char} (areBlank : ∀ c ∈ blanks, Text.isBlank c = true) (offset : Nat) :
    ∃ offset', ∀ back, Scan.run ⟨.word [], true, last, offset⟩ (blanks ++ back) =
      Scan.run ⟨.word [], true, last, offset'⟩ back := by
  induction blanks generalizing offset with
  | nil => exact ⟨offset, fun _ => rfl⟩
  | cons c cs ih =>
    obtain ⟨isBlank, areBlank⟩ := List.forall_mem_cons.mp areBlank
    obtain ⟨offset', same⟩ := ih areBlank (offset + c.utf8Size)
    exact ⟨offset', fun back => (run_blank isBlank).trans (same back)⟩

end JoiningLemmas

open JoiningLemmas

/-- In front of a blank a scan has read what it reads of the text by itself. It has then ended its last word,
and remembers no more than an operator. -/
theorem run_append_blank {scan : Scan} {cs : List Char} {ts : List Token} {blank : Char}
    (scanned : scan.run cs = .ok ts) (isBlank : Text.isBlank blank = true) :
    ∃ offset, ∀ back, scan.run (cs ++ blank :: back) =
      (Scan.run ⟨.word [], true, lastOperator scan.last ts, offset⟩ back).map (ts ++ ·) := by
  induction cs generalizing scan ts with
  | nil =>
    obtain ⟨reading, spaced, last, offset⟩ := scan
    cases reading with
    | text => exact absurd scanned (by simp [Scan.run])
    | word letters =>
      obtain rfl := Except.ok.inj scanned
      refine ⟨offset + blank.utf8Size, fun back => ?_⟩
      rw [List.nil_append, run_cons (.blank (not_isQuote_of_isBlank isBlank) isBlank),
        lastOperator_flush]
  | cons c cs ih =>
    obtain ⟨first, next, rest, step, behind, rfl⟩ := exists_of_run_cons scanned
    obtain ⟨offset, same⟩ := ih behind
    refine ⟨offset, fun back => ?_⟩
    have digit : (cs ++ blank :: back).head?.any Char.isDigit = cs.head?.any Char.isDigit := by
      cases cs with
      | nil => simp [not_isDigit_of_isBlank isBlank]
      | cons => rfl
    have step : Scan.Step (cs ++ blank :: back).head? scan c first next :=
      step_eq_ok_iff.mp ((step_congr digit).trans (step_eq_ok_iff.mpr step))
    rw [List.cons_append, run_cons step, same back, last_of_step step, ← lastOperator_append]
    cases Scan.run _ back with
    | error => rfl
    | ok => simp [Except.map]

/-! ## The second text -/

/-- Scans that go on alike: they are at different places, and whether they remember an operator or blanks
behind it differs only where neither could be half of a comparison. -/
inductive Scan.Alike : Scan → Scan → Prop
  | word {letters : List Char} {spaced spaced' : Bool} {last last' : Option Operator}
      {offset offset' : Nat} :
      lastAfter last letters = lastAfter last' letters →
      (spaced = spaced' ∨ lastAfter last letters = none) →
      Alike ⟨.word letters, spaced, last, offset⟩ ⟨.word letters, spaced', last', offset'⟩
  /-- Behind a quoted text nothing is half of a comparison. -/
  | text {quote : Char} {letters : List Char} {start start' : Nat} {spaced spaced' : Bool}
      {last last' : Option Operator} {offset offset' : Nat} :
      Alike ⟨.text quote start letters, spaced, last, offset⟩
        ⟨.text quote start' letters, spaced', last', offset'⟩

namespace JoiningLemmas

variable {scan other next : Scan} {c : Char} {after : Option Char} {tokens ts : List Token}
  {cs letters longer : List Char} {spaced : Bool} {last : Option Operator}

theorem ne_nil_of_point? (isPoint : Scan.point? letters after = some longer) : longer ≠ [] := by
  unfold Scan.point? at isPoint
  split at isPoint
  · split at isPoint <;> simp at isPoint
    simp [← isPoint]
  · split at isPoint <;> simp at isPoint
    simp [← isPoint]

theorem lastAfter_of_ne_nil (full : letters ≠ []) : Scan.lastAfter last letters = none := by
  cases letters with
  | nil => exact absurd rfl full
  | cons => rfl

theorem alike_of_ne_nil {spaced' : Bool} {last' : Option Operator} {offset offset' : Nat}
    (full : letters ≠ []) :
    Scan.Alike ⟨.word letters, spaced, last, offset⟩ ⟨.word letters, spaced', last', offset'⟩ :=
  .word (by rw [lastAfter_of_ne_nil full, lastAfter_of_ne_nil full]) (.inr (lastAfter_of_ne_nil full))

end JoiningLemmas

/-- Scans that are alike complete the same tokens at a character, and go on alike. -/
theorem step_alike {scan other next : Scan} {c : Char} {after : Option Char} {tokens : List Token}
    (alike : scan.Alike other) (step : Scan.Step after scan c tokens next) :
    ∃ next', Scan.Step after other c tokens next' ∧ next.Alike next' := by
  cases alike with
  | text =>
    cases step with
    | verbatim inside => exact ⟨_, .verbatim inside, .text⟩
    | unquote => exact ⟨_, .unquote, .word rfl (.inr rfl)⟩
  | @word letters spaced spaced' last last' offset offset' sameLast sameSpaced =>
    cases step with
    | quote isQuote => exact ⟨_, .quote isQuote, .text⟩
    | blank noQuote isBlank => exact ⟨_, .blank noQuote isBlank, .word sameLast (.inl rfl)⟩
    | letter noQuote noBlank noOperator =>
      exact ⟨_, .letter noQuote noBlank noOperator, alike_of_ne_nil (List.cons_ne_nil _ _)⟩
    | point isPoint => exact ⟨_, .point isPoint, alike_of_ne_nil (ne_nil_of_point? isPoint)⟩
    | operator noPoint unsplit =>
      refine ⟨_, .operator noPoint fun isSpaced => ?_, .word rfl (.inl rfl)⟩
      rw [← sameLast]
      rcases sameSpaced with same | none
      · exact unsplit (same.trans isSpaced)
      · rw [none]
        rfl

/-- Scans that are alike read the same tokens. -/
theorem run_alike {scan other : Scan} {cs : List Char} {ts : List Token} (alike : scan.Alike other)
    (scanned : scan.run cs = .ok ts) : other.run cs = .ok ts := by
  induction cs generalizing scan other ts with
  | nil =>
    cases alike with
    | word => exact scanned
    | text => exact absurd scanned (by simp [Scan.run])
  | cons c cs ih =>
    obtain ⟨first, next, rest, step, behind, rfl⟩ := exists_of_run_cons scanned
    obtain ⟨next', step', alike'⟩ := step_alike alike step
    rw [run_cons step', ih alike' behind]
    rfl

namespace JoiningLemmas

variable {scan next : Scan} {ts : List Token} {cs letters : List Char} {last : Option Operator}

theorem pairAcross?_of_ne (first : ts.head?.bind Token.operator? = none) : pairAcross? last ts = none := by
  rw [pairAcross?, first]
  cases last <;> rfl

/-- A scan inside of something does not come to an operator next. -/
theorem pairAcross?_of_inside (inside : scan.reading ≠ .word []) (scanned : scan.run cs = .ok ts) :
    pairAcross? last ts = none := by
  have goesOn := Reading.goesOn_of_run scanned
  generalize scan.reading = reading at inside goesOn
  refine pairAcross?_of_ne ?_
  cases goesOn with
  | between => exact absurd rfl inside
  | word => rw [List.head?_cons, Option.bind_some, operator?_classify]
  | text => rfl

end JoiningLemmas

/-- Behind blanks a text is read as it is by itself, whatever is in front of them, unless this is an operator
and the text starts with another one that makes a comparison of it. -/
theorem run_behind {cs : List Char} {ts : List Token} {spaced : Bool} {offset : Nat}
    (scanned : Scan.run ⟨.word [], spaced, none, offset⟩ cs = .ok ts) (last : Option Operator)
    (offset' : Nat) :
    Scan.run ⟨.word [], true, last, offset'⟩ cs =
      match pairAcross? last ts with
      | some pair => .error (.splitComparator pair)
      | none => .ok ts := by
  induction cs generalizing ts spaced offset offset' with
  | nil =>
    obtain rfl := Except.ok.inj scanned
    cases last <;> rfl
  | cons c cs ih =>
    obtain ⟨first, next, rest, step, behind, rfl⟩ := exists_of_run_cons scanned
    have inside {next' : Scan} (full : next.reading ≠ .word []) (alike : next.Alike next')
        (step' : Scan.Step cs.head? ⟨.word [], true, last, offset'⟩ c [] next') :
        Scan.run ⟨.word [], true, last, offset'⟩ (c :: cs) =
          match pairAcross? last rest with
          | some pair => .error (.splitComparator pair)
          | none => .ok rest := by
      rw [run_cons step', run_alike alike behind, pairAcross?_of_inside full behind]
      rfl
    cases step with
    | quote isQuote => exact inside (by simp) .text (.quote isQuote)
    | blank _ isBlank => exact (run_blank isBlank).trans (ih behind _)
    | letter noQuote noBlank noOperator =>
      have full := List.cons_ne_nil c []
      exact inside (by simp) (alike_of_ne_nil full) (.letter noQuote noBlank noOperator)
    | point isPoint =>
      have full := ne_nil_of_point? isPoint
      exact inside (by simp [full]) (alike_of_ne_nil full) (.point isPoint)
    | @operator op _ _ _ _ noPoint _ =>
      have pair : pairAcross? last (Scan.flush [] ++ [.operator op] ++ rest) =
          (Scan.lastAfter last []).bind (Comparator.ofPair? · op) := rfl
      rw [pair]
      cases split : (Scan.lastAfter last []).bind (Comparator.ofPair? · op) with
      | some pair =>
        rw [Scan.run, step_eq_splitComparator noPoint split]
        rfl
      | none =>
        rw [run_cons (.operator noPoint fun _ => split), run_alike (.word rfl (.inl rfl)) behind]
        rfl

/-- Two texts that can be read and have blanks between them are read as the tokens of the first and then those
of the second, unless the last of the first and the first of the second make a comparison of two characters;
then this is refused as split. -/
theorem tokenize_joined {first blanks second : String} {ts ts' : List Token}
    (read : tokenize first = .ok ts) (read' : tokenize second = .ok ts') (full : blanks ≠ "")
    (areBlank : ∀ c ∈ blanks.toList, Text.isBlank c = true) :
    tokenize (first ++ blanks ++ second) =
      match pairAcross? (lastOperator none ts) ts' with
      | some pair => .error (.splitComparator pair)
      | none => .ok (ts ++ ts') := by
  obtain ⟨blank, more, isBlanks⟩ : ∃ blank more, blanks.toList = blank :: more := by
    cases isBlanks : blanks.toList with
    | nil => exact absurd (String.toList_eq_nil_iff.mp isBlanks) full
    | cons blank more => exact ⟨blank, more, rfl⟩
  rw [isBlanks] at areBlank
  obtain ⟨isBlank, areBlank⟩ := List.forall_mem_cons.mp areBlank
  obtain ⟨offset, before⟩ := run_append_blank read isBlank
  obtain ⟨offset', between⟩ := @run_blanks (lastOperator none ts) more areBlank offset
  have behind := run_behind read' (lastOperator none ts) offset'
  calc tokenize (first ++ blanks ++ second)
      = Scan.initial.run (first.toList ++ blank :: (more ++ second.toList)) := by
        rw [tokenize, String.toList_append, String.toList_append, isBlanks, List.append_assoc,
          List.cons_append]
    _ = (Scan.run ⟨.word [], true, lastOperator none ts, offset⟩ (more ++ second.toList)).map (ts ++ ·) :=
        before _
    _ = (Scan.run ⟨.word [], true, lastOperator none ts, offset'⟩ second.toList).map (ts ++ ·) := by
        rw [between]
    _ = _ := by
        rw [behind]
        cases pairAcross? (lastOperator none ts) ts' <;> rfl

/-- Blanks between `>` and `=` split a comparison, and between `>` and `-` they do nothing. -/
theorem amount_joined_with_due :
    tokenize ("amount >" ++ " \t" ++ "= due") = .error (.splitComparator .greaterEqual) ∧
      tokenize ("amount >" ++ " \t" ++ "- due") =
        .ok [.field "amount", .operator .greater, .operator .minus, .field "due"] := by
  have amount : tokenize "amount >" = .ok [.field "amount", .operator .greater] := by
    with_unfolding_all rfl
  have equal : tokenize "= due" = .ok [.operator .equal, .field "due"] := by with_unfolding_all rfl
  have minus : tokenize "- due" = .ok [.operator .minus, .field "due"] := by with_unfolding_all rfl
  have areBlank : ∀ c ∈ " \t".toList, Text.isBlank c = true := List.all_eq_true.mp (by decide)
  exact ⟨tokenize_joined amount equal (by decide) areBlank,
    tokenize_joined amount minus (by decide) areBlank⟩

end RecordFormula
