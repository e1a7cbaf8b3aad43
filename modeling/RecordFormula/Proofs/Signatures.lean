import RecordFormula.Proofs.Lexemes
import RecordFormula.Screen

/-!
# Signatures in tokens

The screen looks for code signatures in the characters of an expression. What is evaluated are its
tokens, and there a word is never split and no blank stands between a name and its parenthesis. A
signature in a token is one in the text, since each token stands there as its lexeme, with what ends a
word on either side of a word.

Results:
1. `occursAfter_of_append`: a phrase that stands somewhere in a text occurs in it.
2. `opensCall_of_written`: blanks are all that is between a token and the parenthesis behind it.
3. `no_signature_in_tokens`: the tokens of an expression that passes the screen hold no signature.
-/

namespace RecordFormula

open LexemesLemmas Screen

/-! ## Names in tokens -/

/-- A text without its letter case, as the screen sees it. -/
def caseless (s : String) : List Char := s.toList.map fold

/-- What a user can name things by in a token. -/
def Token.wording? : Token → Option String
  | .field name => some name
  | .function name => some name
  | .text s => some s
  | _ => none

/-- No name and no quoted text has one of these in it. -/
def forbiddenParts : List String :=
  ["passthru", "popen", "proc_open", "subprocess", "include", "require", "__import__",
    "create_function", "call_user_func"]

/-- No field has one of these names. -/
def forbiddenNames : List String :=
  ["exec", "shell_exec", "system", "eval", "assert", "import", "lambda"]

/-- No name that is called ends in one of these. -/
def forbiddenCalls : List String := ["exec", "system", "eval", "assert", "import", "function"]

/-! ## Phrases in a text -/

namespace SignaturesLemmas

variable {before : Option Char} {c : Char} {cs front behind word letters : List Char}
  {phrase : Phrase} {ending : Ending} {wordStart : Bool}

/-- What ends a word is on the other side of a word boundary. -/
theorem isWordChar_of_endsWord (ends : EndsWord c) : Text.isWordChar c = false := by
  rcases ends with (rfl | rfl) | blank | operator
  · rfl
  · rfl
  · have apart : ∀ range ∈ Text.blankRanges, ∀ k ∈ List.range (range.2 - range.1 + 1),
        Text.isWordChar (Char.ofNat (range.1 + k)) = false := by
      decide +kernel
    obtain ⟨range, mem, low, high⟩ := Text.Ranges.has_iff.mp blank
    have inside := apart range mem (c.toNat - range.1) (List.mem_range.mpr (by omega))
    rwa [Nat.add_sub_cancel' low, Char.ofNat_toNat] at inside
  · obtain ⟨op, isOp⟩ := Option.isSome_iff_exists.mp operator
    obtain rfl := Operator.ofChar?_eq_some isOp
    cases op <;> rfl

theorem afterWord?_append (same : word.map fold = letters) :
    afterWord? letters (word ++ behind) = some behind := by
  subst same
  induction word with
  | nil => cases behind <;> rfl
  | cons c word ih =>
    rw [List.map_cons, List.cons_append, afterWord?, if_pos rfl]
    exact ih

theorem startsAt_append (same : word.map fold = letters)
    (starts : wordStart = true → ∀ c ∈ before, EndsWord c) (ends : ending.admits behind = true) :
    (Phrase.word wordStart letters ending).startsAt before (word ++ behind) = true := by
  have starts : (wordStart && before.any Text.isWordChar) = false := by
    cases wordStart with
    | false => rfl
    | true =>
      cases before with
      | none => rfl
      | some c => exact isWordChar_of_endsWord (starts rfl c rfl)
  rw [Phrase.startsAt, afterWord?_append same, starts, Option.any_some, ends]
  rfl

theorem occursAfter_of_startsAt (starts : phrase.startsAt before cs = true) :
    phrase.occursAfter before cs = true := by
  cases cs with
  | nil => exact starts
  | cons c cs => rw [Phrase.occursAfter, starts, Bool.true_or]

theorem occursAfter_append (occurs : phrase.occursAfter (front.getLast?.or before) cs = true) :
    phrase.occursAfter before (front ++ cs) = true := by
  induction front generalizing before with
  | nil => exact occurs
  | cons c front ih =>
    rw [← List.singleton_append, getLast?_append_or (List.cons_ne_nil _ _)] at occurs
    have behind : phrase.occursAfter (some c) (front ++ cs) = true := ih occurs
    rw [List.cons_append, Phrase.occursAfter, behind, Bool.or_true]

end SignaturesLemmas

open SignaturesLemmas

/-- A phrase occurs in a text if its word stands there in some letter case, with the right
surroundings. -/
theorem occursAfter_of_append {before : Option Char} {front word behind letters : List Char}
    {ending : Ending} {wordStart : Bool} (same : word.map fold = letters)
    (starts : wordStart = true → ∀ c ∈ front.getLast?.or before, EndsWord c)
    (ends : ending.admits behind = true) :
    (Phrase.word wordStart letters ending).occursAfter before (front ++ (word ++ behind)) = true :=
  occursAfter_append (occursAfter_of_startsAt (startsAt_append same starts ends))

/-! ## Lexemes -/

namespace SignaturesLemmas

variable {before : Option Char} {cs word behind lexeme letters : List Char} {t : Token}
  {ts : List Token} {name s : String}

/-- What reading and screening look at in a character. -/
structure Traits where
  folded : Char
  upper : Char
  isBlank : Bool
  isWordChar : Bool
  isAllowed : Bool
  startsName : Bool
  startsClass : Bool
  isDigit : Bool
  operator : Option Operator
  size : Nat
  /-- The character itself, if it is no letter. -/
  unlettered : Option Char
deriving DecidableEq

def traits (c : Char) : Traits where
  folded := fold c
  upper := c.toUpper
  isBlank := Text.isBlank c
  isWordChar := Text.isWordChar c
  isAllowed := isAllowedChar c
  startsName := Screen.startsName false c
  startsClass := Screen.startsName true c
  isDigit := c.isDigit
  operator := Operator.ofChar? c
  size := c.utf8Size
  unlettered := if c.isAlpha then none else some c

/-- None of it depends on letter case. Characters outside ASCII stay what they are. -/
theorem traits_toUpper (c : Char) : traits c.toUpper = traits c := by
  by_cases low : c.toNat < 128
  · have ascii : ∀ n < 128, traits (Char.ofNat n).toUpper = traits (Char.ofNat n) := by decide +kernel
    rw [← Char.ofNat_toNat c]
    exact ascii c.toNat low
  · have same : c.toUpper = c := by
      unfold Char.toUpper
      refine dif_neg fun inside => low ?_
      have high : c.toNat ≤ 122 := inside.2
      omega
    rw [same]

theorem fold_toUpper (c : Char) : fold c.toUpper = fold c := congrArg Traits.folded (traits_toUpper c)

theorem asciiUpper_asciiUpper (s : String) : Text.asciiUpper (Text.asciiUpper s) = Text.asciiUpper s := by
  have twice : Char.toUpper ∘ Char.toUpper = Char.toUpper :=
    funext fun c => congrArg Traits.upper (traits_toUpper c)
  rw [Text.asciiUpper, Text.asciiUpper, String.toList_ofList, List.map_map, twice]

theorem caseless_asciiUpper (s : String) : caseless (Text.asciiUpper s) = caseless s := by
  simp [caseless, Text.asciiUpper, fold_toUpper]

theorem caseless_of_classify (worded : (classify word).wording? = some s) :
    caseless s = word.map fold := by
  have written : caseless (String.ofList word) = word.map fold := by
    rw [caseless, String.toList_ofList]
  rcases classify_cases word with isFunction | ⟨x, isNumber⟩ | isField
  · rw [isFunction, Token.wording?] at worded
    rw [← Option.some.inj worded, caseless_asciiUpper, written]
  · rw [isNumber] at worded
    exact absurd worded (by simp [Token.wording?])
  · rw [isField, Token.wording?] at worded
    rw [← Option.some.inj worded, written]

theorem withZero_cases (word : List Char) : withZero word = word ∨ withZero word = '0' :: word := by
  unfold withZero
  split
  · exact .inr rfl
  · exact .inl rfl

/-- Letters in a name are in the word that it was written as; a 0 in front is no letter. -/
theorem infix_of_withZero (noZero : '0' ∉ letters)
    (inside : letters <:+: (withZero word).map fold) : letters <:+: word.map fold := by
  rcases withZero_cases word with same | longer
  · rwa [same] at inside
  · rw [longer, List.map_cons, List.infix_cons_iff] at inside
    rcases inside with first | inside
    · cases letters with
      | nil => exact List.nil_infix
      | cons letter letters =>
        obtain ⟨rfl, -⟩ := List.cons_prefix_cons.mp first
        exact absurd List.mem_cons_self noZero
    · exact inside

theorem suffix_of_withZero (noZero : '0' ∉ letters)
    (ends : letters <:+ (withZero word).map fold) : letters <:+ word.map fold := by
  rcases withZero_cases word with same | longer
  · rwa [same] at ends
  · rw [longer, List.map_cons, List.suffix_cons_iff] at ends
    rcases ends with rfl | ends
    · exact absurd List.mem_cons_self noZero
    · exact ends

theorem eq_of_withZero (noZero : '0' ∉ letters) (same : (withZero word).map fold = letters) :
    word.map fold = letters := by
  rcases withZero_cases word with unchanged | longer
  · rwa [unchanged] at same
  · rw [longer, List.map_cons] at same
    exact absurd (same ▸ List.mem_cons_self) noZero

theorem infix_of_isLexeme (isLexeme : IsLexeme before behind t lexeme) (worded : t.wording? = some s)
    (noZero : '0' ∉ letters) (inside : letters <:+: caseless s) : letters <:+: lexeme.map fold := by
  cases isLexeme with
  | operator op => exact absurd worded (by simp [Token.wording?])
  | @text quote verbatim _ _ =>
    obtain rfl := Option.some.inj worded
    rw [caseless, String.toList_ofList] at inside
    refine inside.trans ((List.IsInfix.map fold ?_))
    exact ⟨[quote], [quote], rfl⟩
  | word _ _ _ =>
    rw [caseless_of_classify worded] at inside
    exact infix_of_withZero noZero inside

theorem word_of_isLexeme (isLexeme : IsLexeme before behind (.field name) lexeme) :
    (∀ c ∈ before, EndsWord c) ∧ (∀ c ∈ behind.head?, EndsWord c) ∧
      caseless name = (withZero lexeme).map fold := by
  generalize isField : Token.field name = t at isLexeme
  cases isLexeme with
  | operator op => exact absurd isField (by simp)
  | text _ _ => exact absurd isField (by simp)
  | word starts _ ends =>
    exact ⟨starts, ends, caseless_of_classify (by rw [← isField]; rfl)⟩

theorem not_paren_of_classify : classify word ≠ .operator .leftParen := by
  intro isParen
  have noOperator := operator?_classify word
  rw [isParen] at noOperator
  exact absurd noOperator (by simp [Token.operator?])

/-- A parenthesis is the first thing but blanks in what writes it. -/
theorem opensCall_of_written (written : Written before cs (.operator .leftParen :: ts)) :
    opensCall cs = true := by
  generalize whole : Token.operator .leftParen :: ts = tokens at written
  induction written with
  | nil => exact absurd whole (by simp)
  | blank isBlank _ ih =>
    rw [opensCall, List.dropWhile_cons, if_pos isBlank]
    exact ih whole
  | token isLexeme _ _ =>
    obtain ⟨isParen, -⟩ := List.cons.inj whole
    cases isLexeme with
    | operator op =>
      obtain rfl := Token.operator.inj isParen
      rfl
    | text _ _ => exact absurd isParen (by simp)
    | word _ _ _ => exact absurd isParen.symm not_paren_of_classify

/-! ## The screen -/

theorem screenErrors_of_screen {limits : Limits} {expression : String}
    (passed : screen limits expression = .ok ()) : screenErrors limits expression = [] := by
  unfold screen at passed
  split at passed
  · assumption
  · exact absurd passed (by simp)

theorem not_occursAfter_of_screen {limits : Limits} {expression : String} {signature : Signature}
    {phrase : Phrase} (passed : screen limits expression = .ok ()) (known : signature ∈ signatures)
    (mem : phrase ∈ signature.phrases) : phrase.occursAfter none expression.toList = false := by
  have clean := screenErrors_of_screen passed
  have unseen : signatures.filter (·.occursIn expression.toList) = [] := by
    simp only [screenErrors, List.append_eq_nil_iff, List.map_eq_nil_iff] at clean
    exact clean.1.1.2
  have absent := List.filter_eq_nil_iff.mp unseen signature known
  rw [Signature.occursIn, List.any_eq_true] at absent
  exact Bool.eq_false_iff.mpr fun occurs => absent ⟨phrase, mem, occurs⟩

theorem searched_mem :
    (∀ part ∈ forbiddenParts, ∃ signature ∈ signatures, .anywhere part ∈ signature.phrases) ∧
      (∀ name ∈ forbiddenNames, ∃ signature ∈ signatures, .alone name ∈ signature.phrases) ∧
      ∀ name ∈ forbiddenCalls, ∃ signature ∈ signatures, .called name ∈ signature.phrases := by
  decide +kernel

/-- No word of a signature has the 0 that a point gets in front of it. -/
theorem zero_not_mem :
    ∀ word ∈ forbiddenParts ++ forbiddenNames ++ forbiddenCalls, '0' ∉ word.toList := by
  decide +kernel

/-- A word that is searched for stands nowhere in a text that passes. -/
theorem not_placed {limits : Limits} {expression : String} {signature : Signature}
    (passed : screen limits expression = .ok ()) (known : signature ∈ signatures)
    (searched : .word wordStart letters ending ∈ signature.phrases)
    (place : expression.toList = front ++ (word ++ behind)) (same : word.map fold = letters)
    (starts : wordStart = true → ∀ c ∈ front.getLast?, EndsWord c) :
    ending.admits behind = false := by
  refine Bool.eq_false_iff.mpr fun ends => ?_
  have absent := not_occursAfter_of_screen passed known searched
  rw [place, occursAfter_of_append same (by rwa [Option.or_none]) ends] at absent
  exact absurd absent (by simp)

theorem admits_wordEnd (ends : ∀ c ∈ behind.head?, EndsWord c) :
    Ending.wordEnd.admits behind = true := by
  rw [Ending.admits, Bool.not_eq_true', Option.any_eq_false]
  exact fun c first => isWordChar_of_endsWord (ends c first)

end SignaturesLemmas

section

variable {limits : Limits} {expression part name forbidden s : String} {tokens : List Token}
  {t : Token}

/-- What a token says is free of the words that are searched for wherever they stand. -/
theorem not_infix_wording (passed : screen limits expression = .ok ())
    (read : tokenize expression = .ok tokens) (mem : t ∈ tokens) (worded : t.wording? = some s)
    (listed : part ∈ forbiddenParts) : ¬ part.toList <:+: caseless s := by
  intro inside
  obtain ⟨first, rest, rfl⟩ := List.append_of_mem mem
  obtain ⟨front, lexeme, behind, place, isLexeme, -⟩ := (written_of_tokenize read).exists_lexeme
  have noZero := zero_not_mem part (by simp [listed])
  obtain ⟨word, ⟨left, right, rfl⟩, same⟩ :=
    List.infix_map_iff.mp (infix_of_isLexeme isLexeme worded noZero inside)
  obtain ⟨signature, known, searched⟩ := searched_mem.1 part listed
  have place : expression.toList = front ++ left ++ (word ++ (right ++ behind)) := by simp [place]
  exact absurd (not_placed passed known searched place same.symm (by simp)) (by simp [Ending.admits])

/-- No field is named by a word that is searched for on its own. -/
theorem caseless_ne_of_field (passed : screen limits expression = .ok ())
    (read : tokenize expression = .ok tokens) (mem : .field name ∈ tokens)
    (listed : forbidden ∈ forbiddenNames) : caseless name ≠ forbidden.toList := by
  intro same
  obtain ⟨first, rest, rfl⟩ := List.append_of_mem mem
  obtain ⟨front, word, behind, place, isLexeme, -⟩ := (written_of_tokenize read).exists_lexeme
  obtain ⟨starts, ends, written⟩ := word_of_isLexeme isLexeme
  have noZero := zero_not_mem forbidden (by simp [listed])
  obtain ⟨signature, known, searched⟩ := searched_mem.2.1 forbidden listed
  have letters : word.map fold = forbidden.toList :=
    eq_of_withZero noZero (written.symm.trans same)
  have refused := not_placed passed known searched place letters (by simpa using starts)
  exact absurd (admits_wordEnd ends) (by simp [refused])

/-- No name in front of a parenthesis ends in a word that is searched for in calls. -/
theorem not_suffix_of_call (passed : screen limits expression = .ok ())
    (read : tokenize expression = .ok tokens)
    (call : [.field name, .operator .leftParen] <:+: tokens)
    (listed : forbidden ∈ forbiddenCalls) : ¬ forbidden.toList <:+ caseless name := by
  intro final
  obtain ⟨first, rest, rfl⟩ := call
  simp only [List.append_assoc, List.cons_append] at read
  obtain ⟨front, lexeme, behind, place, isLexeme, next⟩ := (written_of_tokenize read).exists_lexeme
  obtain ⟨-, -, written⟩ := word_of_isLexeme isLexeme
  have noZero := zero_not_mem forbidden (by simp [listed])
  rw [written] at final
  obtain ⟨word, ⟨left, rfl⟩, same⟩ := List.suffix_map_iff.mp (suffix_of_withZero noZero final)
  obtain ⟨signature, known, searched⟩ := searched_mem.2.2 forbidden listed
  have place : expression.toList = front ++ left ++ (word ++ behind) := by simp [place]
  have refused := not_placed passed known searched place same.symm (by simp)
  rw [Ending.admits, opensCall_of_written next] at refused
  exact absurd refused (by simp)

/-- What the screen keeps out of a text is out of its tokens, letter case aside. -/
theorem no_signature_in_tokens (passed : screen limits expression = .ok ())
    (read : tokenize expression = .ok tokens) :
    (∀ t ∈ tokens, ∀ s, t.wording? = some s → ∀ part ∈ forbiddenParts,
        ¬ part.toList <:+: caseless s) ∧
      (∀ name, .field name ∈ tokens → ∀ forbidden ∈ forbiddenNames,
        caseless name ≠ forbidden.toList) ∧
      (∀ name, [.field name, .operator .leftParen] <:+: tokens → ∀ forbidden ∈ forbiddenCalls,
        ¬ forbidden.toList <:+ caseless name) :=
  ⟨fun _ mem _ worded _ listed => not_infix_wording passed read mem worded listed,
    fun _ mem _ listed => caseless_ne_of_field passed read mem listed,
    fun _ call _ listed => not_suffix_of_call passed read call listed⟩

/-- Longer names are let through, a 0 in front of them or not. -/
theorem no_signature_in_longer_names :
    screen {} "executive (.5EXEC + tag_system)" = .ok () ∧
      tokenize "executive (.5EXEC + tag_system)" =
        .ok [.field "executive", .operator .leftParen, .field "0.5EXEC", .operator .plus,
          .field "tag_system", .operator .rightParen] ∧
      ¬ "exec".toList <:+ caseless "executive" ∧ caseless "0.5EXEC" ≠ "exec".toList ∧
      ¬ "popen".toList <:+: caseless "tag_system" := by
  have passed : screen {} "executive (.5EXEC + tag_system)" = .ok () := by
    with_unfolding_all rfl
  have read : tokenize "executive (.5EXEC + tag_system)" =
      .ok [.field "executive", .operator .leftParen, .field "0.5EXEC", .operator .plus,
        .field "tag_system", .operator .rightParen] := by
    with_unfolding_all rfl
  obtain ⟨parts, names, calls⟩ := no_signature_in_tokens passed read
  exact ⟨passed, read, calls "executive" ⟨[], _, rfl⟩ "exec" (by decide),
    names "0.5EXEC" (by simp) "exec" (by decide),
    parts (.field "tag_system") (by simp) "tag_system" rfl "popen" (by decide)⟩

end

end RecordFormula
