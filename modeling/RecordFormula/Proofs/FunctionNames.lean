import Mathlib.Data.List.Basic
import RecordFormula.Proofs.Calls
import RecordFormula.Proofs.LowerCase
import RecordFormula.Proofs.ScreenCase
import RecordFormula.Proofs.Spellings

/-!
# Names of functions

A word is put into upper case twice: its ASCII letters when it is read, and then all of it, by Unicode's mappings,
when it is looked up in the catalog. The two come apart at two letters above ASCII, `ſ` and `ı`, which are `S` and
`I` in upper case. A word with one of them names a function, and keeps it in its token.

Results:
1. `upperChar_cases`: no other character above ASCII becomes part of the name of a function.
2. `toList_of_find?`: what a name is that the catalog knows.
3. `functionNames_canonical`: the names that the tokens of a text carry, and those that they find.
-/

namespace RecordFormula

open Text (CaseRun upperChar upperRuns upperExpansions)

/-- The letter of a function's name that a character can stand for. -/
def plainLetter (c : Char) : Char :=
  if c = 'ſ' then 'S' else if c = 'ı' then 'I' else c.toUpper

namespace FunctionNamesLemmas

open CallsLemmas ScreenCaseLemmas SignaturesLemmas

open Number.LowerCaseLemmas (toNat_ofNat_cases)

variable {c : Char} {name : String} {spec : FunctionSpec} {word : List Char}

/-! ## Upper case -/

theorem ascii_of_mem (known : spec ∈ Catalog.standardFunctions) (mem : c ∈ spec.name.toList) :
    0 < c.toNat ∧ c.toNat < 128 := by
  -- Not as a statement about all characters, which would be decided by trying them one by one.
  have ascii : ∀ spec ∈ Catalog.standardFunctions,
      spec.name.toList.all (fun c => 0 < c.toNat ∧ c.toNat < 128) = true := by decide
  simpa using List.all_eq_true.mp (ascii spec known) c mem

theorem no_expansion : ∀ image ∈ upperExpansions, ∀ spec ∈ Catalog.standardFunctions,
    ¬ image.2.map Char.ofNat <:+: spec.name.toList := by decide +kernel

/-- Whether a run of letters above ASCII has its images there too. -/
def staysHigh (run : CaseRun) : Bool := 128 ≤ run.first + run.shift

theorem staysHigh_or : ∀ run ∈ upperRuns,
    staysHigh run = true ∨ run = ⟨0x131, 0x131, 1, -232⟩ ∨ run = ⟨0x17F, 0x17F, 1, -300⟩ := by
  decide +kernel

theorem not_infix_of_not_ascii (outside : c.toNat = 0 ∨ 128 ≤ c.toNat) :
    ∀ spec ∈ Catalog.standardFunctions, ¬ [c] <:+: spec.name.toList := by
  intro spec known inside
  have := ascii_of_mem known (inside.subset (List.mem_singleton_self c))
  omega

/-- A character is one letter of a name in upper case, or its upper case does not occur in names. -/
theorem upperChar_cases (c : Char) :
    upperChar c = [plainLetter c] ∨
      ∀ spec ∈ Catalog.standardFunctions, ¬ upperChar c <:+: spec.name.toList := by
  unfold upperChar
  split
  · rename_i low
    have longS : c ≠ 'ſ' := fun same => absurd low (same ▸ by decide)
    have dotless : c ≠ 'ı' := fun same => absurd low (same ▸ by decide)
    rw [plainLetter, if_neg longS, if_neg dotless]
    exact .inl rfl
  · rename_i high
    split
    · rename_i ns image
      obtain ⟨before, behind, whole, -⟩ := List.lookup_eq_some_iff.mp image
      exact .inr (no_expansion (c.toNat, ns) (by simp [whole]))
    · split
      · rename_i n image
        obtain ⟨run, mem, image⟩ := List.exists_of_findSome?_eq_some image
        rw [CaseRun.map?, Option.ite_none_right_eq_some, Option.some_inj] at image
        obtain ⟨⟨first, last, -⟩, rfl⟩ := image
        rcases staysHigh_or run mem with stays | rfl | rfl
        · rw [staysHigh, decide_eq_true_eq] at stays
          refine .inr (not_infix_of_not_ascii ?_)
          rcases toNat_ofNat_cases (c.toNat + run.shift).toNat with same | zero <;> omega
        · obtain rfl : c = 'ı' := Char.toNat_inj.mp (Nat.le_antisymm last first)
          exact .inl (by decide)
        · obtain rfl : c = 'ſ' := Char.toNat_inj.mp (Nat.le_antisymm last first)
          exact .inl (by decide)
      · exact .inr (not_infix_of_not_ascii (.inr (Nat.le_of_not_lt high)))

/-! ## Look-up -/

/-- A name that is known stands letter by letter for that of its function. -/
theorem toList_of_find? (found : Catalog.standard.find? name = some spec) :
    name.toList.map plainLetter = spec.name.toList := by
  obtain ⟨known, key⟩ := of_find? found
  have upper : name.toList.flatMap upperChar = spec.name.toList := by
    rw [← key, Text.uppercase, String.toList_ofList]
  have plain : ∀ c ∈ name.toList, upperChar c = [plainLetter c] := by
    intro c mem
    refine (upperChar_cases c).resolve_right fun outside => outside spec known ?_
    obtain ⟨before, behind, whole⟩ := List.append_of_mem mem
    rw [← upper, whole, List.flatMap_append, List.flatMap_cons]
    exact List.infix_append' ..
  calc name.toList.map plainLetter
    _ = name.toList.flatMap fun c => [plainLetter c] := List.map_eq_flatMap
    _ = name.toList.flatMap upperChar := List.flatMap_congr fun c mem => (plain c mem).symm
    _ = spec.name.toList := upper

theorem plain_of_mem : ∀ spec ∈ Catalog.standardFunctions,
    'ſ' ∉ spec.name.toList ∧ 'ı' ∉ spec.name.toList := by decide

/-- A name with its ASCII letters in upper case is that of its function, unless it has one of the two letters
that are no others'. -/
theorem eq_name_iff (found : Catalog.standard.find? name = some spec) (upper : Text.asciiUpper name = name) :
    name = spec.name ↔ 'ſ' ∉ name.toList ∧ 'ı' ∉ name.toList := by
  constructor
  · rintro rfl
    exact plain_of_mem spec (mem_of_find? found)
  · rintro ⟨noLongS, noDotless⟩
    have letters : name.toList.map Char.toUpper = name.toList.map plainLetter := by
      refine List.map_congr_left fun c mem => ?_
      rw [plainLetter, if_neg (ne_of_mem_of_not_mem mem noLongS), if_neg (ne_of_mem_of_not_mem mem noDotless)]
    rw [← upper, Text.asciiUpper, letters, toList_of_find? found, String.ofList_toList]

/-! ## Tokens -/

theorem of_classify_function (classified : classify word = .function name) :
    name = Text.asciiUpper (String.ofList word) ∧ isFunctionName name = true := by
  unfold classify at classified
  dsimp only at classified
  split at classified
  · rename_i isFunction
    obtain rfl := Token.function.inj classified
    exact ⟨rfl, isFunction⟩
  · split at classified <;> exact absurd classified (by simp)

theorem of_classify_field (classified : classify word = .field name) :
    isFunctionName (Text.asciiUpper name) = false := by
  unfold classify at classified
  dsimp only at classified
  split at classified
  · exact absurd classified (by simp)
  · rename_i noFunction
    split at classified
    · exact absurd classified (by simp)
    · rw [← Token.field.inj classified]
      exact Bool.eq_false_iff.mpr noFunction

theorem exists_word {expression : String} {tokens : List Token} {t : Token}
    (read : tokenize expression = .ok tokens) (mem : t ∈ tokens)
    (isName : t = .function name ∨ t = .field name) :
    ∃ word, word <:+: expression.toList ∧ classify (withZero word) = t := by
  obtain ⟨first, rest, rfl⟩ := List.append_of_mem mem
  obtain ⟨front, word, behind, place, isLexeme, -⟩ := (written_of_tokenize read).exists_lexeme
  have written := isLexeme.isWrittenAs
  refine ⟨word, ⟨front, behind, by rw [place, List.append_assoc]⟩, ?_⟩
  rcases isName with rfl | rfl <;> exact written.2

theorem isAllowed_of_screen {limits : Limits} {expression : String}
    (passed : screen limits expression = .ok ()) :
    ∀ c ∈ expression.toList, isAllowedChar c = true := by
  have clean := screenErrors_of_screen passed
  have found : expression.toList.find? (fun c => !isAllowedChar c) = none := by
    simp only [screenErrors, List.append_eq_nil_iff, Option.toList_eq_nil_iff, Option.map_eq_none_iff] at clean
    exact clean.1.2
  intro c mem
  simpa using List.find?_eq_none.mp found c mem

/-- In the name of a function a character is an ASCII letter or digit, or it stands in the text. -/
theorem mem_of_mem_name {expression : String} {tokens : List Token} (read : tokenize expression = .ok tokens)
    (mem : .function name ∈ tokens) (plain : c.isAlphanum = false) (inName : c ∈ name.toList) :
    c ∈ expression.toList := by
  rw [Char.isAlphanum, Bool.or_eq_false_iff] at plain
  obtain ⟨word, inside, classified⟩ := exists_word read mem (.inl rfl)
  obtain ⟨rfl, -⟩ := of_classify_function classified
  rw [Text.asciiUpper, String.toList_ofList, String.toList_ofList, List.mem_map] at inName
  obtain ⟨letter, inWord, upper⟩ := inName
  obtain rfl := (toUpper_eq_iff plain.1 letter).mp upper
  rcases withZero_cases word with same | longer
  · exact inside.subset (same ▸ inWord)
  · rw [longer, List.mem_cons] at inWord
    rcases inWord with rfl | inWord
    · exact absurd plain.2 (by decide)
    · exact inside.subset inWord

end FunctionNamesLemmas

open FunctionNamesLemmas

theorem asciiUpper_of_tokenize {expression : String} {tokens : List Token} (read : tokenize expression = .ok tokens)
    {name : String} (mem : .function name ∈ tokens) : Text.asciiUpper name = name := by
  obtain ⟨word, -, classified⟩ := exists_word read mem (.inl rfl)
  rw [(of_classify_function classified).1, SignaturesLemmas.asciiUpper_asciiUpper]

/-- The function that a token of a text names is in the catalog, and letter by letter the name in the token stands
for that of the function: `ſ` and `ı` for `S` and `I`, and every other letter for itself. So the names are the same
unless one of the two letters was written, which screening lets no expression do. A field does not name a function,
in calls either. -/
theorem functionNames_canonical {expression : String} {tokens : List Token}
    (read : tokenize expression = .ok tokens) :
    (∀ name, .function name ∈ tokens → ∃ spec, Catalog.standard.find? (Token.function name).callName = some spec ∧
      name.toList.map plainLetter = spec.name.toList ∧
      (name = spec.name ↔ 'ſ' ∉ name.toList ∧ 'ı' ∉ name.toList) ∧
      ∀ limits, screen limits expression = .ok () → name = spec.name) ∧
    ∀ name, .field name ∈ tokens → Catalog.standard.find? (Token.field name).callName = none := by
  constructor
  · intro name mem
    obtain ⟨word, -, classified⟩ := exists_word read mem (.inl rfl)
    obtain ⟨spec, found⟩ := Option.isSome_iff_exists.mp (of_classify_function classified).2
    have canonical := eq_name_iff found (asciiUpper_of_tokenize read mem)
    refine ⟨spec, found, toList_of_find? found, canonical, fun limits passed => canonical.mpr ?_⟩
    have allowed := isAllowed_of_screen passed
    have absent {letter : Char} (plain : letter.isAlphanum = false) (forbidden : isAllowedChar letter = false) :
        letter ∉ name.toList :=
      fun inName => absurd (allowed _ (mem_of_mem_name read mem plain inName)) (by simp [forbidden])
    exact ⟨absent (by decide) (by decide), absent (by decide) (by decide)⟩
  · intro name mem
    obtain ⟨word, -, classified⟩ := exists_word read mem (.inr rfl)
    exact Option.not_isSome_iff_eq_none.mp (Bool.eq_false_iff.mp (of_classify_field classified))

/-- The total is found under both names, but only one is its own. The field is no function. -/
theorem longSum_finds_sum :
    tokenize "ſum(due) - Sum(median)" =
        .ok [.function "ſUM", .operator .leftParen, .field "due", .operator .rightParen, .operator .minus,
          .function "SUM", .operator .leftParen, .field "median", .operator .rightParen] ∧
      (∃ spec, Catalog.standard.find? "ſUM" = some spec ∧ spec.name.toList = "SUM".toList ∧ "ſUM" ≠ spec.name) ∧
      (∃ spec, Catalog.standard.find? "SUM" = some spec ∧ "SUM" = spec.name) ∧
      Catalog.standard.find? "MEDIAN" = none := by
  have read : tokenize "ſum(due) - Sum(median)" =
      .ok [.function "ſUM", .operator .leftParen, .field "due", .operator .rightParen, .operator .minus,
        .function "SUM", .operator .leftParen, .field "median", .operator .rightParen] := by
    with_unfolding_all rfl
  obtain ⟨functions, fields⟩ := functionNames_canonical read
  refine ⟨read, ?_, ?_, fields "median" (by simp)⟩
  · obtain ⟨spec, found, letters, canonical, -⟩ := functions "ſUM" (by simp)
    exact ⟨spec, found, letters.symm.trans (by decide), fun same => absurd (canonical.mp same).1 (by decide)⟩
  · obtain ⟨spec, found, -, canonical, -⟩ := functions "SUM" (by simp)
    exact ⟨spec, found, canonical.mpr (by decide)⟩

end RecordFormula
