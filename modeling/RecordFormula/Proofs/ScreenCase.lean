import RecordFormula.Formula
import RecordFormula.Proofs.Signatures

/-!
# Screening and letter case

Screening looks for code signatures in any letter case, allows all letters, and otherwise looks at characters
that are no letters. So it finds the same in a text and in the text with its ASCII letters in upper case.

Results:
1. `occursAfter_upper`: phrases stand in both texts or in neither.
2. `screenErrors_asciiUpper`: screening finds the same errors.
-/

namespace RecordFormula

open Screen

namespace ScreenCaseLemmas

open SignaturesLemmas

variable {c : Char} {cs : List Char}

theorem isBlank_toUpper (c : Char) : Text.isBlank c.toUpper = Text.isBlank c :=
  congrArg Traits.isBlank (traits_toUpper c)

theorem isWordChar_toUpper (c : Char) : Text.isWordChar c.toUpper = Text.isWordChar c :=
  congrArg Traits.isWordChar (traits_toUpper c)

theorem isAllowedChar_toUpper (c : Char) : isAllowedChar c.toUpper = isAllowedChar c :=
  congrArg Traits.isAllowed (traits_toUpper c)

theorem startsName_toUpper (backslash : Bool) (c : Char) :
    startsName backslash c.toUpper = startsName backslash c := by
  cases backslash with
  | false => exact congrArg Traits.startsName (traits_toUpper c)
  | true => exact congrArg Traits.startsClass (traits_toUpper c)

theorem toUpper_of_not_isAlpha (plain : c.isAlpha = false) : c.toUpper = c := by
  have same : (if c.toUpper.isAlpha then none else some c.toUpper) = if c.isAlpha then none else some c :=
    congrArg Traits.unlettered (traits_toUpper c)
  rw [plain] at same
  split at same
  · exact absurd same (by simp)
  · exact Option.some.inj same

theorem toUpper_eq_iff {symbol : Char} (plain : symbol.isAlpha = false) (c : Char) :
    c.toUpper = symbol ↔ c = symbol := by
  constructor
  · rintro rfl
    have same : (if c.toUpper.isAlpha then none else some c.toUpper) = if c.isAlpha then none else some c :=
      congrArg Traits.unlettered (traits_toUpper c)
    rw [plain, if_neg Bool.false_ne_true] at same
    split at same
    · exact absurd same (by simp)
    · exact (Option.some.inj same).symm
  · rintro rfl
    exact toUpper_of_not_isAlpha plain

theorem toUpper_of_forbidden (forbidden : isAllowedChar c = false) : c.toUpper = c := by
  rw [isAllowedChar, Char.isAlphanum, Bool.or_eq_false_iff, Bool.or_eq_false_iff,
    Bool.or_eq_false_iff] at forbidden
  exact toUpper_of_not_isAlpha forbidden.1.1.1

section Searches

variable {p : Char → Bool} (invariant : ∀ c, p c.toUpper = p c)
include invariant

theorem dropWhile_upper (cs : List Char) :
    (cs.map Char.toUpper).dropWhile p = (cs.dropWhile p).map Char.toUpper := by
  have same : p ∘ Char.toUpper = p := funext invariant
  rw [List.dropWhile_map, same]

theorem any_upper (before : Option Char) : (before.map Char.toUpper).any p = before.any p := by
  cases before with
  | none => rfl
  | some c => exact invariant c

end Searches

theorem afterWord?_upper (letters cs : List Char) :
    afterWord? letters (cs.map Char.toUpper) = (afterWord? letters cs).map (List.map Char.toUpper) := by
  induction letters generalizing cs with
  | nil =>
    rw [afterWord?, afterWord?]
    rfl
  | cons letter letters ih =>
    cases cs with
    | nil => rfl
    | cons c cs =>
      rw [List.map_cons, afterWord?, afterWord?, fold_toUpper, ih]
      split <;> rfl

theorem opensCall_upper (cs : List Char) : opensCall (cs.map Char.toUpper) = opensCall cs := by
  rw [opensCall, opensCall, dropWhile_upper isBlank_toUpper, List.head?_map]
  cases (cs.dropWhile Text.isBlank).head? with
  | none => rfl
  | some c =>
    rw [Option.map_some, Bool.eq_iff_iff, beq_iff_eq, beq_iff_eq, Option.some_inj, Option.some_inj]
    exact toUpper_eq_iff (by decide) c

theorem admits_upper (ending : Ending) (cs : List Char) :
    ending.admits (cs.map Char.toUpper) = ending.admits cs := by
  cases ending with
  | anything => rfl
  | wordEnd => rw [Ending.admits, Ending.admits, List.head?_map, any_upper isWordChar_toUpper]
  | parenthesis => exact opensCall_upper cs
  | blanksAndName backslash =>
    rw [Ending.admits, Ending.admits, List.head?_map, any_upper isBlank_toUpper,
      dropWhile_upper isBlank_toUpper, List.head?_map, any_upper (startsName_toUpper backslash)]

theorem startsAt_upper (phrase : Phrase) (before : Option Char) (cs : List Char) :
    phrase.startsAt (before.map Char.toUpper) (cs.map Char.toUpper) = phrase.startsAt before cs := by
  cases phrase with
  | word wordStart letters ending =>
    have ends : (fun rest => ending.admits (rest.map Char.toUpper)) = ending.admits :=
      funext (admits_upper ending)
    rw [Phrase.startsAt, Phrase.startsAt, any_upper isWordChar_toUpper, afterWord?_upper, Option.any_map,
      ends]
  | dollarCall =>
    cases cs with
    | nil => rfl
    | cons c cs =>
      by_cases dollar : c = '$'
      · subst dollar
        rw [List.map_cons]
        show ((cs.map Char.toUpper).head?.any Text.isWordChar &&
          opensCall ((cs.map Char.toUpper).dropWhile Text.isWordChar)) = _
        rw [List.head?_map, any_upper isWordChar_toUpper, dropWhile_upper isWordChar_toUpper, opensCall_upper]
        rfl
      · have dollar' : c.toUpper ≠ '$' := mt (toUpper_eq_iff (by decide) c).mp dollar
        simp [Phrase.startsAt, dollar, dollar']

/-- The quotes and parentheses of a text stay where they are. -/
theorem nestingFrom_upper {quote : Option Char} (isQuote : ∀ q ∈ quote, IsQuote q) (depth deepest : Nat) :
    nestingFrom depth deepest quote (cs.map Char.toUpper) = nestingFrom depth deepest quote cs := by
  induction cs generalizing quote depth deepest with
  | nil => rfl
  | cons c cs ih =>
    cases quote with
    | some q =>
      have same : c.toUpper = q ↔ c = q := by
        rcases isQuote q rfl with rfl | rfl <;> exact toUpper_eq_iff (by decide) c
      have isQuote' : ∀ q' ∈ (if c = q then none else some q), IsQuote q' := by
        intro q' mem
        split at mem
        · exact absurd mem (by simp)
        · exact isQuote q' mem
      rw [List.map_cons, nestingFrom, nestingFrom]
      simp only [same]
      exact ih isQuote' _ _
    | none =>
      have double : c.toUpper = '"' ↔ c = '"' := toUpper_eq_iff (by decide) c
      have single : c.toUpper = '\'' ↔ c = '\'' := toUpper_eq_iff (by decide) c
      have opened : c.toUpper = '(' ↔ c = '(' := toUpper_eq_iff (by decide) c
      have closed : c.toUpper = ')' ↔ c = ')' := toUpper_eq_iff (by decide) c
      rw [List.map_cons, nestingFrom, nestingFrom]
      simp only [double, single, opened, closed]
      split
      · rename_i isQuote
        have same : c.toUpper = c := by
          rcases isQuote with rfl | rfl <;> rfl
        rw [same]
        exact ih (fun q mem => Option.some.inj mem ▸ isQuote) _ _
      · split
        · exact ih (by simp) _ _
        · split
          · split
            · rfl
            · exact ih (by simp) _ _
          · exact ih (by simp) _ _

end ScreenCaseLemmas

open ScreenCaseLemmas

/-- A phrase stands in a text in any letter case. -/
theorem occursAfter_upper (phrase : Phrase) (before : Option Char) (cs : List Char) :
    phrase.occursAfter (before.map Char.toUpper) (cs.map Char.toUpper) = phrase.occursAfter before cs := by
  induction cs generalizing before with
  | nil => exact startsAt_upper phrase before []
  | cons c cs ih =>
    have starts := startsAt_upper phrase before (c :: cs)
    have behind := ih (some c)
    rw [List.map_cons] at starts ⊢
    rw [Option.map_some] at behind
    rw [Phrase.occursAfter, Phrase.occursAfter, starts, behind]

/-- Screening finds the same errors in a text and in the text in upper case. -/
theorem screenErrors_asciiUpper (limits : Limits) (expression : String) :
    screenErrors limits (Text.asciiUpper expression) = screenErrors limits expression := by
  have letters : (Text.asciiUpper expression).toList = expression.toList.map Char.toUpper :=
    String.toList_ofList
  have occurs (signature : Signature) :
      signature.occursIn (expression.toList.map Char.toUpper) = signature.occursIn expression.toList := by
    rw [Signature.occursIn, Signature.occursIn]
    exact congrArg signature.phrases.any (funext fun phrase => occursAfter_upper phrase none _)
  have forbidden : (expression.toList.map Char.toUpper).find? (fun c => !isAllowedChar c) =
      expression.toList.find? (fun c => !isAllowedChar c) := by
    have same : (fun c => !isAllowedChar c) ∘ Char.toUpper = fun c => !isAllowedChar c :=
      funext fun c => congrArg not (isAllowedChar_toUpper c)
    rw [List.find?_map, same]
    cases found : expression.toList.find? fun c => !isAllowedChar c with
    | none => rfl
    | some c =>
      have isForbidden := List.find?_some found
      rw [Bool.not_eq_true'] at isForbidden
      rw [Option.map_some, toUpper_of_forbidden isForbidden]
  have nesting : nestingErrors limits (Text.asciiUpper expression) = nestingErrors limits expression := by
    rw [nestingErrors, nestingErrors, nestingDepth, nestingDepth, letters, nestingFrom_upper (by simp)]
  rw [screenErrors, screenErrors, nesting, letters, forbidden, List.length_map, funext occurs]

theorem isBlankText_asciiUpper (expression : String) :
    isBlankText (Text.asciiUpper expression) = isBlankText expression := by
  rw [isBlankText, isBlankText, Text.asciiUpper, String.toList_ofList, List.all_map]
  exact congrArg expression.toList.all (funext isBlank_toUpper)

end RecordFormula
