import RecordFormula.Proofs.NameCase
import RecordFormula.Proofs.ScreenCase
import RecordFormula.Proofs.UnreadableTexts

/-!
# Letter case of texts

Functions and keywords are known in any letter case. Reading turns functions into upper case and leaves
keywords as they are, so texts that differ in the case of both are read as lists that differ in the case of
keywords.

`Recased letters cs cs'` says that the texts differ only in the case of functions and keywords outside quotes.
Words are cut as reading cuts them: a point may belong to a word, so what has been read of one counts.

Results:
1. `run_recased`: scans of two such texts give the same tokens, up to the case of keywords.
2. `parse_recased`: the texts are both refused, for reasons of one kind, or read as formulas that read the
   same fields, make the same calls and are worth the same everywhere.
-/

namespace RecordFormula

/-- Whether a word is a function or a keyword, in any case of its ASCII letters. -/
def IsCaseless (word : List Char) : Prop :=
  isFunctionName (Text.asciiUpper (String.ofList word)) = true ∨ isReserved (String.ofList word) = true

/-- Texts that differ only in the letter case of functions and keywords. `letters` is what has been read of
the word that they start in, latest first. -/
inductive Recased : List Char → List Char → List Char → Prop
  | done {letters : List Char} : Recased letters [] []
  /-- A character of a word. -/
  | letter {c : Char} {letters cs cs' : List Char} :
      IsLetter c → Recased (c :: letters) cs cs' → Recased letters (c :: cs) (c :: cs')
  /-- A point that belongs to a number. -/
  | point {letters longer cs cs' : List Char} :
      Scan.point? letters cs.head? = some longer → Recased longer cs cs' →
      Recased letters ('.' :: cs) ('.' :: cs')
  /-- A blank or an operator. -/
  | separator {c : Char} {letters cs cs' : List Char} :
      EndsWord c → ¬ IsQuote c → (c = '.' → Scan.point? letters cs.head? = none) → Recased [] cs cs' →
      Recased letters (c :: cs) (c :: cs')
  /-- A quoted text, which is the same in both. -/
  | quoted {quote : Char} {letters text cs cs' : List Char} :
      IsQuote quote → quote ∉ text → Recased [] cs cs' →
      Recased letters (quote :: (text ++ quote :: cs)) (quote :: (text ++ quote :: cs'))
  /-- A quoted text that is not ended. -/
  | unended {quote : Char} {letters text : List Char} :
      IsQuote quote → quote ∉ text → Recased letters (quote :: text) (quote :: text)
  /-- A whole word that is a function or a keyword. -/
  | word {word word' cs cs' : List Char} :
      IsCaseless word → (∀ c ∈ word, IsLetter c) →
      Text.asciiUpper (String.ofList word') = Text.asciiUpper (String.ofList word) →
      (∀ c ∈ cs.head?, EndsWord c) → Recased word.reverse cs cs' → Recased [] (word ++ cs) (word' ++ cs')

/-- Every text is like itself: there is a rule for whatever it goes on with. -/
theorem Recased.refl (letters cs : List Char) : Recased letters cs cs := by
  -- On the length of the text: a quoted text is passed over at once.
  induction length : cs.length using Nat.strongRecOn generalizing letters cs with
  | ind n ih =>
    subst length
    cases cs with
    | nil => exact .done
    | cons c cs =>
      have behind (letters : List Char) : Recased letters cs cs := ih _ (Nat.lt_succ_self _) letters cs rfl
      by_cases isQuote : IsQuote c
      · by_cases ended : c ∈ cs
        · obtain ⟨text, rest, rfl, absent⟩ := List.eq_append_cons_of_mem ended
          refine .quoted isQuote absent (ih _ ?_ [] rest rfl)
          simp only [List.length_cons, List.length_append]
          omega
        · exact .unended isQuote ended
      · by_cases ends : EndsWord c
        · cases isPoint : Scan.point? letters cs.head? with
          | none => exact .separator ends isQuote (fun _ => isPoint) (behind [])
          | some longer =>
            by_cases dot : c = '.'
            · subst dot
              exact .point isPoint (behind longer)
            · exact .separator ends isQuote (fun same => absurd same dot) (behind [])
        · exact .letter ends (behind _)

/-! ## Words -/

/-- Keywords in upper case, and other names as they are. -/
def upperKeyword (name : String) : String := if isReserved name then Text.asciiUpper name else name

theorem changesCase_upperKeyword : ChangesCase upperKeyword := by
  intro name
  rw [upperKeyword]
  split
  · exact SignaturesLemmas.asciiUpper_asciiUpper name
  · rfl

theorem keepsFields_upperKeyword : KeepsFields upperKeyword := by
  intro name free
  rw [upperKeyword, free]
  rfl

/-- Lists that differ only in the letter case of keywords. -/
def SameTokens (ts ts' : List Token) : Prop :=
  ts.map (Token.rename upperKeyword) = ts'.map (.rename upperKeyword)

namespace LetterCaseLemmas

open ScreenCaseLemmas SignaturesLemmas LexemesLemmas UnreadableTextsLemmas JoiningLemmas

variable {c : Char} {word word' letters cs cs' : List Char}

theorem le_of_isDigit (digit : c.isDigit = true) : c.toNat ≤ 57 := by
  rw [Char.isDigit, Bool.and_eq_true, decide_eq_true_eq, decide_eq_true_eq] at digit
  exact digit.2

theorem toUpper_of_isDigit (digit : c.isDigit = true) : c.toUpper = c := by
  unfold Char.toUpper
  refine dif_neg fun inside => ?_
  have low : 97 ≤ c.toNat := inside.1
  exact absurd (Nat.le_trans low (le_of_isDigit digit)) (by decide)

theorem exists_first (caseless : IsCaseless word) : ∃ c rest, word = c :: rest ∧ c.isDigit = false := by
  cases word with
  | nil => rcases caseless with isFunction | reserved <;> contradiction
  | cons c rest =>
    refine ⟨c, rest, rfl, Bool.eq_false_iff.mpr fun digit => ?_⟩
    have upper : (Text.asciiUpper (String.ofList (c :: rest))).toList = c :: rest.map Char.toUpper := by
      rw [Text.asciiUpper, String.toList_ofList, String.toList_ofList, List.map_cons,
        toUpper_of_isDigit digit]
    rcases caseless with isFunction | reserved
    · have keys : ∀ entry ∈ Catalog.standard.entries, entry.1.toList.head?.any Char.isDigit = false := by
        decide
      obtain ⟨spec, found⟩ := Option.isSome_iff_exists.mp isFunction
      obtain ⟨before, behind, entries, -⟩ := List.lookup_eq_some_iff.mp found
      have key := keys (_, spec) (entries ▸ List.mem_append_right _ List.mem_cons_self)
      have image : Text.upperChar c = [c] := by
        rw [Text.upperChar, if_pos (Nat.lt_of_le_of_lt (le_of_isDigit digit) (by decide)),
          toUpper_of_isDigit digit]
      rw [Text.uppercase, upper, String.toList_ofList, List.flatMap_cons, image] at key
      exact absurd digit (Bool.eq_false_iff.mp key)
    · have keyword : Text.asciiUpper (String.ofList (c :: rest)) = whereWord ∨
          Text.asciiUpper (String.ofList (c :: rest)) = andWord := by
        simpa [isReserved] using reserved
      rcases keyword with same | same <;> rw [same] at upper <;> obtain ⟨rfl, -⟩ := List.cons.inj upper <;>
        exact absurd digit (by decide)

/-- A function or keyword is not a row of digits, so no point belongs to it. -/
theorem point?_of_caseless (caseless : IsCaseless word) (after : Option Char) :
    Scan.point? word.reverse after = none := by
  obtain ⟨c, rest, rfl, noDigit⟩ := exists_first caseless
  have some : (c :: rest).reverse.isEmpty = false := by simp
  have mixed : (c :: rest).reverse.all Char.isDigit = false := by simp [noDigit]
  rw [Scan.point?, some, mixed]
  rfl

theorem caseless_of_same (caseless : IsCaseless word)
    (same : Text.asciiUpper (String.ofList word') = Text.asciiUpper (String.ofList word)) :
    IsCaseless word' := by
  rw [IsCaseless, isReserved, same]
  exact caseless

theorem flush_of_caseless (caseless : IsCaseless word) : Scan.flush word.reverse = [classify word] := by
  obtain ⟨c, rest, rfl, -⟩ := exists_first caseless
  rw [Scan.flush, if_neg (by simp), List.reverse_reverse]

theorem upper_of_keyword (caseless : IsCaseless word)
    (noFunction : isFunctionName (Text.asciiUpper (String.ofList word)) = false) :
    (classify word).rename upperKeyword = .field (Text.asciiUpper (String.ofList word)) := by
  have isKeyword : isReserved (String.ofList word) = true :=
    caseless.resolve_left (Bool.eq_false_iff.mp noFunction)
  obtain ⟨c, rest, rfl, noDigit⟩ := exists_first caseless
  have isField : classify (c :: rest) = .field (String.ofList (c :: rest)) := by
    rw [classify, noFunction, List.head?_cons, Option.any_some, noDigit]
    rfl
  rw [isField, Token.rename, upperKeyword, if_pos isKeyword]

/-- A function or keyword is the same token in any letter case, up to that of keywords. -/
theorem sameTokens_of_caseless (caseless : IsCaseless word) (caseless' : IsCaseless word')
    (same : Text.asciiUpper (String.ofList word') = Text.asciiUpper (String.ofList word)) :
    SameTokens (Scan.flush word.reverse) (Scan.flush word'.reverse) := by
  rw [SameTokens, flush_of_caseless caseless, flush_of_caseless caseless', List.map_singleton,
    List.map_singleton]
  cases isFunction : isFunctionName (Text.asciiUpper (String.ofList word)) with
  | true =>
    rw [classify, classify, same, isFunction]
    rfl
  | false => rw [upper_of_keyword caseless isFunction, upper_of_keyword caseless' (same ▸ isFunction), same]

end LetterCaseLemmas

/-! ## Scans -/

/-- Scans that fail for reasons of one kind, or give the same tokens up to the case of keywords. -/
def SameReading (first second : Except ParseError (List Token)) : Prop :=
  EndsAlike ParseError.kind SameTokens first second

theorem SameReading.refl (x : Except ParseError (List Token)) : SameReading x x :=
  EndsAlike.self (fun ts => show SameTokens ts ts from rfl) x

theorem SameReading.trans {x y z : Except ParseError (List Token)} (first : SameReading x y)
    (second : SameReading y z) : SameReading x z :=
  EndsAlike.trans (fun same same' => Eq.trans same same') first second

namespace LetterCaseLemmas

open ScreenCaseLemmas SignaturesLemmas LexemesLemmas UnreadableTextsLemmas JoiningLemmas

variable {scan scan' next next' : Scan} {c quote : Char} {word word' text letters cs cs' : List Char}
  {tokens tokens' : List Token} {spaced : Bool} {last : Option Operator} {offset : Nat}

/-- Scans that go through a character with the same tokens go on with the same reading. -/
theorem sameReading_of_step (step : Scan.Step cs.head? scan c tokens next)
    (step' : Scan.Step cs'.head? scan' c tokens' next') (same : SameTokens tokens tokens')
    (behind : SameReading (next.run cs) (next'.run cs')) :
    SameReading (scan.run (c :: cs)) (scan'.run (c :: cs')) := by
  rw [run_cons step, run_cons step']
  generalize next.run cs = rest at behind ⊢
  generalize next'.run cs' = rest' at behind ⊢
  cases behind with
  | error kind => exact .error kind
  | ok related =>
    refine .ok ?_
    rw [SameTokens] at same related ⊢
    rw [List.map_append, List.map_append, same, related]

theorem run_letters (areLetters : ∀ c ∈ word, IsLetter c) :
    Scan.run ⟨.word letters, spaced, last, offset⟩ (word ++ cs) =
      Scan.run ⟨.word (word.reverse ++ letters), spaced, last,
        offset + (String.ofList word).utf8ByteSize⟩ cs := by
  induction word generalizing letters offset with
  | nil => rfl
  | cons c word ih =>
    obtain ⟨isLetter, areLetters⟩ := List.forall_mem_cons.mp areLetters
    obtain ⟨noQuote, noBlank, noOperator⟩ := isLetter_iff.mp isLetter
    rw [List.cons_append, run_cons (.letter noQuote noBlank noOperator), ih areLetters, utf8ByteSize_cons,
      List.reverse_cons, List.append_assoc, Nat.add_assoc]
    exact congrFun Except.map_id _

theorem sameReading_text {start : Nat} (absent : quote ∉ text)
    (behind : ∀ spaced last offset, SameReading (Scan.run ⟨.word [], spaced, last, offset⟩ cs)
      (Scan.run ⟨.word [], spaced, last, offset⟩ cs')) :
    SameReading (Scan.run ⟨.text quote start letters, spaced, last, offset⟩ (text ++ quote :: cs))
      (Scan.run ⟨.text quote start letters, spaced, last, offset⟩ (text ++ quote :: cs')) := by
  induction text generalizing letters offset with
  | nil => exact sameReading_of_step .unquote .unquote rfl (behind _ _ _)
  | cons c text ih =>
    rw [List.mem_cons, not_or] at absent
    obtain ⟨inside, absent⟩ := absent
    exact sameReading_of_step (.verbatim (Ne.symm inside)) (.verbatim (Ne.symm inside)) rfl (ih absent)

/-- Where a word ends, it does not matter in which case a function or keyword was written. -/
theorem sameReading_of_ends (caseless : IsCaseless word) (caseless' : IsCaseless word')
    (same : Text.asciiUpper (String.ofList word') = Text.asciiUpper (String.ofList word))
    (ends : ∀ c ∈ cs.head?, EndsWord c) :
    SameReading (Scan.run ⟨.word word.reverse, spaced, last, offset⟩ cs)
      (Scan.run ⟨.word word'.reverse, spaced, last, offset⟩ cs) := by
  have tokens := sameTokens_of_caseless caseless caseless' same
  cases cs with
  | nil => exact .ok tokens
  | cons c cs =>
    have forgets {word : List Char} (caseless : IsCaseless word) :
        Scan.lastAfter last word.reverse = none := by
      obtain ⟨c, rest, rfl, -⟩ := exists_first caseless
      exact lastAfter_of_ne_nil (by simp)
    rcases ends c rfl with isQuote | isBlank | isOperator
    · refine sameReading_of_step (.quote isQuote) (.quote isQuote) tokens ?_
      rw [forgets caseless, forgets caseless']
      exact SameReading.refl _
    · have noQuote := not_isQuote_of_isBlank isBlank
      refine sameReading_of_step (.blank noQuote isBlank) (.blank noQuote isBlank) tokens ?_
      rw [forgets caseless, forgets caseless']
      exact SameReading.refl _
    · obtain ⟨op, isOp⟩ := Option.isSome_iff_exists.mp isOperator
      obtain rfl := Operator.ofChar?_eq_some isOp
      have stepped {word : List Char} (caseless : IsCaseless word) :
          Scan.Step cs.head? ⟨.word word.reverse, spaced, last, offset⟩ op.char
            (Scan.flush word.reverse ++ [.operator op])
            ⟨.word [], false, some op, offset + op.char.utf8Size⟩ :=
        .operator (fun _ => point?_of_caseless caseless _) fun _ => by rw [forgets caseless, Option.bind_none]
      refine sameReading_of_step (stepped caseless) (stepped caseless') ?_ (SameReading.refl _)
      rw [SameTokens] at tokens ⊢
      rw [List.map_append, List.map_append, tokens]

/-- At a blank or an operator a scan fails or is between words. -/
theorem between_of_step {after : Option Char}
    (step : Scan.Step after ⟨.word letters, spaced, last, offset⟩ c tokens next) (ends : EndsWord c)
    (noQuote : ¬ IsQuote c) (noPoint : c = '.' → Scan.point? letters after = none) :
    ∃ spaced last offset, next = ⟨.word [], spaced, last, offset⟩ := by
  cases step with
  | quote isQuote => exact absurd isQuote noQuote
  | blank => exact ⟨_, _, _, rfl⟩
  | letter notQuote noBlank noOperator => exact absurd ends (isLetter_iff.mpr ⟨notQuote, noBlank, noOperator⟩)
  | point isPoint => exact absurd ((noPoint rfl).symm.trans isPoint) (by simp)
  | operator => exact ⟨_, _, _, rfl⟩

/-- Only letters have another case, and letters end no word. -/
theorem endsWord_toUpper (c : Char) : EndsWord c.toUpper ↔ EndsWord c := by
  have operators : Operator.ofChar? c.toUpper = Operator.ofChar? c :=
    congrArg Traits.operator (traits_toUpper c)
  rw [EndsWord, EndsWord, isBlank_toUpper, operators, IsQuote, IsQuote, toUpper_eq_iff (by decide),
    toUpper_eq_iff (by decide)]

section Upper

variable (upper : cs'.map Char.toUpper = cs.map Char.toUpper)
include upper

theorem digit_of_upper : cs'.head?.any Char.isDigit = cs.head?.any Char.isDigit := by
  have isDigit_toUpper (c : Char) : c.toUpper.isDigit = c.isDigit := congrArg Traits.isDigit (traits_toUpper c)
  have first := congrArg List.head? upper
  rw [List.head?_map, List.head?_map] at first
  rw [← any_upper isDigit_toUpper cs'.head?, first, any_upper isDigit_toUpper]

theorem ends_of_upper (ends : ∀ c ∈ cs.head?, EndsWord c) : ∀ c ∈ cs'.head?, EndsWord c := by
  intro c' mem
  have first := congrArg List.head? upper
  rw [List.head?_map, List.head?_map, mem, Option.map_some, eq_comm, Option.map_eq_some_iff] at first
  obtain ⟨c, isFirst, same⟩ := first
  rw [← endsWord_toUpper, ← same, endsWord_toUpper]
  exact ends c isFirst

theorem letters_of_upper (areLetters : ∀ c ∈ cs, IsLetter c) : ∀ c ∈ cs', IsLetter c := by
  intro c' mem
  obtain ⟨c, here, same⟩ := List.mem_map.mp (upper ▸ List.mem_map_of_mem mem)
  rw [IsLetter, ← endsWord_toUpper, ← same, endsWord_toUpper]
  exact areLetters c here

theorem bytes_of_upper : (String.ofList cs').utf8ByteSize = (String.ofList cs).utf8ByteSize := by
  have bytes (cs : List Char) :
      (String.ofList (cs.map Char.toUpper)).utf8ByteSize = (String.ofList cs).utf8ByteSize := by
    induction cs with
    | nil => rfl
    | cons c cs ih =>
      have size : c.toUpper.utf8Size = c.utf8Size := congrArg Traits.size (traits_toUpper c)
      rw [List.map_cons, utf8ByteSize_cons, utf8ByteSize_cons, ih, size]
  rw [← bytes, upper, bytes]

end Upper

theorem upper_of_same (same : Text.asciiUpper (String.ofList word') = Text.asciiUpper (String.ofList word)) :
    word'.map Char.toUpper = word.map Char.toUpper := by
  have letters := congrArg String.toList same
  rwa [Text.asciiUpper, Text.asciiUpper, String.toList_ofList, String.toList_ofList, String.toList_ofList,
    String.toList_ofList] at letters

end LetterCaseLemmas

open JoiningLemmas LetterCaseLemmas LexemesLemmas

theorem Recased.upper_eq {letters cs cs' : List Char} (recased : Recased letters cs cs') :
    cs'.map Char.toUpper = cs.map Char.toUpper := by
  induction recased with
  | done => rfl
  | letter _ _ ih | point _ _ ih | separator _ _ _ _ ih => rw [List.map_cons, List.map_cons, ih]
  | quoted _ _ _ ih =>
    rw [List.map_cons, List.map_cons, List.map_append, List.map_append, List.map_cons, List.map_cons, ih]
  | unended => rfl
  | word _ _ same _ _ ih => rw [List.map_append, List.map_append, ih, upper_of_same same]

/-- Scans read two such texts alike. -/
theorem run_recased {letters cs cs' : List Char} (recased : Recased letters cs cs') (spaced : Bool)
    (last : Option Operator) (offset : Nat) :
    SameReading (Scan.run ⟨.word letters, spaced, last, offset⟩ cs)
      (Scan.run ⟨.word letters, spaced, last, offset⟩ cs') := by
  induction recased generalizing spaced last offset with
  | done => exact SameReading.refl _
  | letter isLetter _ ih =>
    obtain ⟨noQuote, noBlank, noOperator⟩ := isLetter_iff.mp isLetter
    exact sameReading_of_step (.letter noQuote noBlank noOperator) (.letter noQuote noBlank noOperator) rfl
      (ih _ _ _)
  | @point letters longer cs cs' isPoint behind ih =>
    have isPoint' : Scan.point? letters cs'.head? = some longer := by
      rwa [Scan.point?, digit_of_upper behind.upper_eq]
    exact sameReading_of_step (.point isPoint) (.point isPoint') rfl (ih _ _ _)
  | @separator c letters cs cs' ends noQuote noPoint behind ih =>
    have sameStep := @step_congr ⟨.word letters, spaced, last, offset⟩ c _ _ (digit_of_upper behind.upper_eq)
    cases stepped : Scan.step ⟨.word letters, spaced, last, offset⟩ c cs.head? with
    | error reason =>
      rw [Scan.run, Scan.run, sameStep, stepped]
      exact .error rfl
    | ok parts =>
      obtain ⟨tokens, next⟩ := parts
      have step := step_eq_ok_iff.mp stepped
      have step' := step_eq_ok_iff.mp (sameStep.trans stepped)
      obtain ⟨spaced, last, offset, rfl⟩ := between_of_step step ends noQuote noPoint
      exact sameReading_of_step step step' rfl (ih _ _ _)
  | quoted isQuote absent behind ih =>
    exact sameReading_of_step (.quote isQuote) (.quote isQuote) rfl (sameReading_text absent ih)
  | unended => exact SameReading.refl _
  | word caseless areLetters same ends behind ih =>
    have upper := upper_of_same same
    rw [run_letters areLetters, run_letters (letters_of_upper upper areLetters), bytes_of_upper upper,
      List.append_nil, List.append_nil]
    exact (ih _ _ _).trans (sameReading_of_ends caseless (caseless_of_same caseless same) same
      (ends_of_upper behind.upper_eq ends))

/-! ## Formulas -/

/-- Two formulas that read the same fields, make the same calls and are worth the same everywhere. -/
structure Formula.Equivalent (first second : Formula) : Prop where
  fields : second.fields = first.fields
  calls : second.calls = first.calls
  value : ∀ ctx, EndsAlike EvalError.kind Eq (execute first ctx) (execute second ctx)

namespace LetterCaseLemmas

variable {ts ts' : List Token} (same : SameTokens ts ts')
include same

theorem eq_of_sameTokens {α : Type} (g : List Token → α)
    (invariant : ∀ ts, g (ts.map (.rename upperKeyword)) = g ts) : g ts' = g ts := by
  rw [← invariant ts, ← invariant ts', same]

theorem equivalent_of_sameTokens (expression expression' : String) :
    Formula.Equivalent { expression, tokens := ts } { expression := expression', tokens := ts' } where
  fields := congrArg List.eraseDups
    (eq_of_sameTokens same fieldNames (fieldNames_recased changesCase_upperKeyword keepsFields_upperKeyword))
  calls := eq_of_sameTokens same callSites (callSites_recased changesCase_upperKeyword)
  value ctx := by
    have upper := evaluate_recased changesCase_upperKeyword keepsFields_upperKeyword ts ctx
    have upper' := evaluate_recased changesCase_upperKeyword keepsFields_upperKeyword ts' ctx
    rw [SameTokens] at same
    rw [same] at upper
    have both : EndsAlike EvalError.kind Eq (evaluate ts ctx) (evaluate ts' ctx) :=
      EndsAlike.trans Eq.trans upper upper'.symm
    exact both.map Value.orZero

theorem kinds_of_sameTokens :
    (structuralErrors ts).map ParseError.kind = (structuralErrors ts').map ParseError.kind :=
  (eq_of_sameTokens same (fun ts => (structuralErrors ts).map ParseError.kind)
    fun ts => (structuralErrors_recased changesCase_upperKeyword ts).symm).symm

end LetterCaseLemmas

/-- Two texts that differ only in the letter case of functions and keywords are both refused, for reasons of
one kind, or both read as formulas, and these are equivalent. -/
theorem parse_recased (limits : Limits) {expression expression' : String}
    (recased : Recased [] expression.toList expression'.toList) :
    EndsAlike FormulaError.kind Formula.Equivalent (parse limits expression) (parse limits expression') := by
  have upper : Text.asciiUpper expression' = Text.asciiUpper expression :=
    congrArg String.ofList recased.upper_eq
  have blank : isBlankText expression' = isBlankText expression := by
    rw [← isBlankText_asciiUpper, upper, isBlankText_asciiUpper]
  have screened : screen limits expression' = screen limits expression := by
    rw [screen, screen, ← screenErrors_asciiUpper, upper, screenErrors_asciiUpper]
  have read : SameReading (tokenize expression) (tokenize expression') := run_recased recased _ _ _
  rw [parse, parse, blank, screened]
  split
  · exact .error rfl
  · split
    · exact .error rfl
    · generalize tokenize expression = tokens at read ⊢
      generalize tokenize expression' = tokens' at read ⊢
      cases read with
      | error same => exact .error (congrArg FormulaError.parse same)
      | @ok ts ts' same =>
        have kinds := kinds_of_sameTokens same
        dsimp only
        generalize structuralErrors ts = errors at kinds ⊢
        generalize structuralErrors ts' = errors' at kinds ⊢
        cases errors with
        | nil =>
          rw [List.map_nil, eq_comm, List.map_eq_nil_iff] at kinds
          subst kinds
          exact .ok (equivalent_of_sameTokens same expression expression')
        | cons reason errors =>
          cases errors' with
          | nil => exact absurd kinds (by simp)
          | cons reason' errors' => exact .error (congrArg FormulaError.parse (List.cons.inj kinds).1)

/-- A sum under a condition, with its words in two cases. -/
theorem sumWhere_in_two_cases :
    Recased [] "Sum(due where n>1)".toList "SUM(due WHERE n>1)".toList ∧
      EndsAlike FormulaError.kind Formula.Equivalent (parse {} "Sum(due where n>1)")
        (parse {} "SUM(due WHERE n>1)") := by
  have areLetters {word : List Char} (all : word.all (decide <| IsLetter ·) = true) :
      ∀ c ∈ word, IsLetter c := by
    simpa using all
  have keyword : Recased [] "where n>1)".toList "WHERE n>1)".toList := by
    refine @Recased.word ['w', 'h', 'e', 'r', 'e'] ['W', 'H', 'E', 'R', 'E'] _ _ (.inr rfl) (areLetters ?_) rfl
      ?_ (.refl ['e', 'r', 'e', 'h', 'w'] " n>1)".toList)
    · decide
    · rintro c ⟨⟩
      decide
  have behind : Recased ['m', 'u', 'S'] "(due where n>1)".toList "(due WHERE n>1)".toList := by
    refine .separator ?_ ?_ ?_ (.letter ?_ (.letter ?_ (.letter ?_ (.separator ?_ ?_ ?_ keyword)))) <;> decide
  have recased : Recased [] "Sum(due where n>1)".toList "SUM(due WHERE n>1)".toList := by
    refine @Recased.word ['S', 'u', 'm'] ['S', 'U', 'M'] _ _ (.inl rfl) (areLetters ?_) rfl ?_ behind
    · decide
    · rintro c ⟨⟩
      decide
  exact ⟨recased, parse_recased {} recased⟩

end RecordFormula
