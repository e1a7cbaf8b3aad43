import RecordFormula.Proofs.Lexemes

/-!
# Spellings

A text that is read is nothing but the lexemes of its tokens, in order, and blanks around them. The scan keeps
no character back, and the only one that it adds is the 0 in front of a point.

Results:
1. `IsLexeme.isWrittenAs`: what the lexeme of each token looks like.
2. `Written.exists_spellings`: what is written consists of lexemes that stand whole, and of blanks.
3. `tokenize_lossless`: so does every text that is read.
-/

namespace RecordFormula

open LexemesLemmas

/-- What a token looks like in a text. -/
def Token.IsWrittenAs : Token → List Char → Prop
  | .operator op, lexeme => lexeme = [op.char]
  | .text s, lexeme =>
    ∃ quote, IsQuote quote ∧ quote ∉ s.toList ∧ lexeme = quote :: (s.toList ++ [quote])
  | t, lexeme => IsWord lexeme ∧ classify (withZero lexeme) = t

/-- A token as it stands in a text, with the blanks behind it. -/
structure Spelling where
  token : Token
  lexeme : List Char
  blanks : List Char
  written : token.IsWrittenAs lexeme
  areBlank : ∀ c ∈ blanks, Text.isBlank c = true

/-- The characters of a spelling. -/
def Spelling.text (spelling : Spelling) : List Char := spelling.lexeme ++ spelling.blanks

/-- A lexeme has the look of its token, wherever it stands. -/
theorem IsLexeme.isWrittenAs {before : Option Char} {behind lexeme : List Char} {t : Token}
    (isLexeme : IsLexeme before behind t lexeme) : t.IsWrittenAs lexeme := by
  cases isLexeme with
  | operator op => rfl
  | @text quote letters isQuote absent =>
    exact ⟨quote, isQuote, by rwa [String.toList_ofList], by rw [String.toList_ofList]⟩
  | word _ isWord _ =>
    generalize classified : classify (withZero lexeme) = t
    have cases := classify_cases (withZero lexeme)
    rw [classified] at cases
    rcases cases with rfl | ⟨x, rfl⟩ | rfl <;> exact ⟨isWord, classified⟩

/-- Behind blanks and the character `before`, each lexeme stands whole: a word starts where one can start, and
goes on up to what ends it. -/
def StandWhole (before : Option Char) (lead : List Char) (spellings : List Spelling) : Prop :=
  ∀ front spelling behind, spellings = front ++ spelling :: behind →
    IsLexeme ((lead ++ front.flatMap Spelling.text).getLast?.or before)
      (spelling.blanks ++ behind.flatMap Spelling.text) spelling.token spelling.lexeme

/-- What is written consists of lexemes and the blanks around them. -/
theorem Written.exists_spellings {before : Option Char} {cs : List Char} {ts : List Token}
    (written : Written before cs ts) :
    ∃ (lead : List Char) (spellings : List Spelling), (∀ c ∈ lead, Text.isBlank c = true) ∧
      cs = lead ++ spellings.flatMap Spelling.text ∧ spellings.map Spelling.token = ts ∧
      StandWhole before lead spellings := by
  induction written with
  | nil => exact ⟨[], [], by simp, rfl, rfl, fun _ _ _ impossible => absurd impossible (by simp)⟩
  | @blank _ c _ _ isBlank _ ih =>
    obtain ⟨lead, spellings, areBlank, rfl, rfl, stand⟩ := ih
    refine ⟨c :: lead, spellings, List.forall_mem_cons.mpr ⟨isBlank, areBlank⟩, rfl, rfl, ?_⟩
    intro front spelling behind whole
    have isLexeme := stand front spelling behind whole
    rwa [← List.singleton_append, List.append_assoc, getLast?_append_or (List.cons_ne_nil c [])]
  | @token _ lexeme _ t _ isLexeme _ ih =>
    obtain ⟨lead, spellings, areBlank, rfl, rfl, stand⟩ := ih
    refine ⟨[], ⟨t, lexeme, lead, isLexeme.isWrittenAs, areBlank⟩ :: spellings, by simp, ?_, rfl, ?_⟩
    · rw [List.nil_append, List.flatMap_cons, Spelling.text, List.append_assoc]
    · intro front spelling behind whole
      cases front with
      | nil =>
        obtain ⟨rfl, rfl⟩ := List.cons.inj whole
        exact isLexeme
      | cons first front =>
        obtain ⟨rfl, more⟩ := List.cons.inj whole
        have behindFirst := stand front spelling behind more
        rwa [List.nil_append, List.flatMap_cons, Spelling.text, List.append_assoc,
          getLast?_append_or (ne_nil_of_isLexeme isLexeme)]

/-- A text that is read consists of one lexeme for each of its tokens, in order, and of blanks around them,
and on either side of a word is what ends words, or nothing. -/
theorem tokenize_lossless {expression : String} {tokens : List Token}
    (read : tokenize expression = .ok tokens) :
    ∃ (lead : List Char) (spellings : List Spelling), (∀ c ∈ lead, Text.isBlank c = true) ∧
      expression.toList = lead ++ spellings.flatMap Spelling.text ∧
      spellings.map Spelling.token = tokens ∧ StandWhole none lead spellings :=
  (written_of_tokenize read).exists_spellings

/-- In this text there is no 0 in front of the point. -/
theorem halfOfRate_is_spelled :
    ∃ (lead : List Char) (spellings : List Spelling), (∀ c ∈ lead, Text.isBlank c = true) ∧
      " rate* .5".toList = lead ++ spellings.flatMap Spelling.text ∧
      spellings.map Spelling.token = [.field "rate", .operator .star, .number 0.5] ∧
      StandWhole none lead spellings := by
  have read : tokenize " rate* .5" = .ok [.field "rate", .operator .star, .number 0.5] := by
    with_unfolding_all rfl
  exact tokenize_lossless read

end RecordFormula
