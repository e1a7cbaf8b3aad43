import RecordFormula.Value
import RecordFormula.Text.Case
import Mathlib.Data.List.TakeWhile

/-!
# Numerals in lower case

Lower case changes only one character of a finite numeral, the `E` in front of its exponent, and nothing else in
Unicode becomes a digit, a sign, a point, an `e` or a blank. So two texts with one lower case are numerals
together, and of one number.

Results:
1. `readNumeral_lower`: a numeral is read in any letter case.
2. `lowerFrom_eq_map`: in a text that is a numeral in lower case, only ASCII letters were in upper case.
3. `ofText_eq_of_lowercase_eq`: texts that are one text in lower case read as one number.
-/

namespace RecordFormula.Number

open Text (Ranges blankRanges isBlank trim CaseRun lowerRuns lowerChar lowerFrom lowercase)

/-! ## Reading -/

namespace LowerCaseLemmas

/-- What a numeral is read by, character by character. -/
structure Marks where
  isBlank : Bool
  digit? : Option Char
  isMinus : Bool
  isPlus : Bool
  isPoint : Bool
  isExponent : Bool
  lower : Char
deriving DecidableEq

def marks (c : Char) : Marks where
  isBlank := isBlank c
  digit? := if c.isDigit then some c else none
  isMinus := c = '-'
  isPlus := c = '+'
  isPoint := c = '.'
  isExponent := c = 'e' || c = 'E'
  lower := c.toLower

variable {c : Char} {cs : List Char}

theorem toLower_of_high (high : 128 ≤ c.toNat) : c.toLower = c := by
  unfold Char.toLower
  refine dif_neg fun inside => ?_
  have low : c.toNat ≤ 90 := inside.2
  omega

/-- None of it depends on letter case. -/
theorem marks_toLower (c : Char) : marks c.toLower = marks c := by
  by_cases low : c.toNat < 128
  · have ascii : ∀ n < 128, marks (Char.ofNat n).toLower = marks (Char.ofNat n) := by decide +kernel
    rw [← Char.ofNat_toNat c]
    exact ascii c.toNat low
  · rw [toLower_of_high (Nat.le_of_not_lt low)]

theorem isBlank_toLower (c : Char) : isBlank c.toLower = isBlank c :=
  congrArg Marks.isBlank (marks_toLower c)

theorem toLower_toLower (c : Char) : c.toLower.toLower = c.toLower :=
  congrArg Marks.lower (marks_toLower c)

theorem digit?_toLower (c : Char) :
    (if c.toLower.isDigit then some c.toLower else none) = if c.isDigit then some c else none :=
  congrArg Marks.digit? (marks_toLower c)

theorem isDigit_toLower (c : Char) : c.toLower.isDigit = c.isDigit := by
  have same := congrArg Option.isSome (digit?_toLower c)
  cases digit : c.isDigit <;> cases digit' : c.toLower.isDigit <;> simp_all

theorem toLower_of_isDigit (digit : c.isDigit = true) : c.toLower = c := by
  have same := digit?_toLower c
  rw [isDigit_toLower, if_pos digit, if_pos digit] at same
  exact Option.some.inj same

theorem toLower_eq_minus : c.toLower = '-' ↔ c = '-' :=
  decide_eq_decide.mp (congrArg Marks.isMinus (marks_toLower c))

theorem toLower_eq_plus : c.toLower = '+' ↔ c = '+' :=
  decide_eq_decide.mp (congrArg Marks.isPlus (marks_toLower c))

theorem toLower_eq_point : c.toLower = '.' ↔ c = '.' :=
  decide_eq_decide.mp (congrArg Marks.isPoint (marks_toLower c))

theorem isExponent_toLower (c : Char) :
    (decide (c.toLower = 'e') || decide (c.toLower = 'E')) = (decide (c = 'e') || decide (c = 'E')) :=
  congrArg Marks.isExponent (marks_toLower c)

theorem map_lower_of_digits (digits : ∀ c ∈ cs, c.isDigit = true) : cs.map Char.toLower = cs :=
  (List.map_congr_left fun c mem => toLower_of_isDigit (digits c mem)).trans (List.map_id cs)

theorem takeWhile_digits (cs : List Char) :
    (cs.map Char.toLower).takeWhile Char.isDigit = cs.takeWhile Char.isDigit := by
  have same : Char.isDigit ∘ Char.toLower = Char.isDigit := funext isDigit_toLower
  rw [List.takeWhile_map, same, map_lower_of_digits fun c mem => List.mem_takeWhile_imp mem]

theorem dropWhile_lower {p : Char → Bool} (invariant : ∀ c, p c.toLower = p c) (cs : List Char) :
    (cs.map Char.toLower).dropWhile p = (cs.dropWhile p).map Char.toLower := by
  have same : p ∘ Char.toLower = p := funext invariant
  rw [List.dropWhile_map, same]

theorem trim_lower (cs : List Char) : trim (cs.map Char.toLower) = (trim cs).map Char.toLower := by
  rw [trim, trim, dropWhile_lower isBlank_toLower, ← List.map_reverse, dropWhile_lower isBlank_toLower,
    ← List.map_reverse]

theorem readSign_lower (cs : List Char) :
    readSign (cs.map Char.toLower) = ((readSign cs).1, (readSign cs).2.map Char.toLower) := by
  cases cs with
  | nil => rfl
  | cons c cs =>
    by_cases minus : c = '-'
    · subst minus
      rfl
    · by_cases plus : c = '+'
      · subst plus
        rfl
      · have minus' := mt toLower_eq_minus.mp minus
        have plus' := mt toLower_eq_plus.mp plus
        simp [readSign, minus, plus, minus', plus']

theorem readFraction_lower (cs : List Char) :
    readFraction (cs.map Char.toLower) = ((readFraction cs).1, (readFraction cs).2.map Char.toLower) := by
  cases cs with
  | nil => rfl
  | cons c cs =>
    by_cases point : c = '.'
    · subst point
      show (_, _) = ((_ : List Char), (_ : List Char))
      rw [takeWhile_digits, dropWhile_lower isDigit_toLower]
      rfl
    · have point' := mt toLower_eq_point.mp point
      simp [readFraction, point, point']

theorem readExponent_lower (cs : List Char) : readExponent (cs.map Char.toLower) = readExponent cs := by
  cases cs with
  | nil => rfl
  | cons c cs =>
    have digits : ((readSign cs).2.map Char.toLower).all Char.isDigit = (readSign cs).2.all Char.isDigit := by
      rw [List.all_map]
      exact congrArg (readSign cs).2.all (funext isDigit_toLower)
    rw [List.map_cons, readExponent, readExponent, readSign_lower]
    simp only [isExponent_toLower, digits, List.isEmpty_map]
    split
    · rename_i found
      rw [Bool.and_eq_true, List.all_eq_true] at found
      rw [map_lower_of_digits found.2]
    · rfl

theorem readDigits_lower (cs : List Char) : readDigits (cs.map Char.toLower) = readDigits cs := by
  rw [readDigits, readDigits, takeWhile_digits, dropWhile_lower isDigit_toLower, readFraction_lower]
  simp only [readExponent_lower]

theorem readNamed_lower (cs : List Char) : readNamed (cs.map Char.toLower) = readNamed cs := by
  have same : Char.toLower ∘ Char.toLower = Char.toLower := funext toLower_toLower
  rw [readNamed, readNamed, List.map_map, same]

end LowerCaseLemmas

open LowerCaseLemmas

/-- A numeral is read in any letter case. -/
theorem readNumeral_lower (cs : List Char) : readNumeral (cs.map Char.toLower) = readNumeral cs := by
  rw [readNumeral, readNumeral, readSign_lower]
  simp only [readDigits_lower, readNamed_lower]

/-! ## Characters -/

/-- The characters of a finite numeral in lower case, and blanks. -/
def numeralRanges : Ranges := (0x2B, 0x2B) :: (0x2D, 0x2E) :: (0x30, 0x39) :: (0x65, 0x65) :: blankRanges

/-- Whether a character can stand in a finite numeral in lower case, or around it. -/
def InNumeral (c : Char) : Prop := numeralRanges.has c.toNat = true

instance (c : Char) : Decidable (InNumeral c) := inferInstanceAs (Decidable (_ = true))

namespace LowerCaseLemmas

variable {c d : Char} {cs before : List Char} {x : Float} {n : Nat}

theorem inNumeral_of_isBlank (blank : isBlank c = true) : InNumeral c.toLower := by
  obtain ⟨range, mem, inside⟩ := Ranges.has_iff.mp ((isBlank_toLower c).trans blank)
  exact Ranges.has_iff.mpr ⟨range, by simp [numeralRanges, mem], inside⟩

theorem inNumeral_of_isDigit (digit : c.isDigit = true) : InNumeral c.toLower := by
  have inside := Char.isDigit_iff_toNat.mp digit
  rw [toLower_of_isDigit digit]
  exact Ranges.has_iff.mpr ⟨(0x30, 0x39), by simp [numeralRanges], inside⟩

theorem inNumeral_of_readSign (mem : c ∈ cs) (behind : ∀ c ∈ (readSign cs).2, InNumeral c.toLower) :
    InNumeral c.toLower := by
  unfold readSign at behind
  split at behind
  · rcases List.mem_cons.mp mem with rfl | mem
    · exact (by decide : InNumeral '-')
    · exact behind c mem
  · rcases List.mem_cons.mp mem with rfl | mem
    · exact (by decide : InNumeral '+')
    · exact behind c mem
  · exact behind c mem

theorem inNumeral_of_readExponent {e : Int} (reads : readExponent cs = some e) :
    ∀ c ∈ cs, InNumeral c.toLower := by
  cases cs with
  | nil => simp
  | cons letter cs =>
    obtain ⟨found, -⟩ := Option.ite_none_right_eq_some.mp
      (show (if _ && (readSign cs).2.all Char.isDigit then _ else none) = some e from reads)
    simp only [Bool.and_eq_true, Bool.or_eq_true, decide_eq_true_eq, List.all_eq_true] at found
    obtain ⟨⟨isExponent, -⟩, digits⟩ := found
    rw [List.forall_mem_cons]
    constructor
    · rcases isExponent with rfl | rfl <;> exact (by decide : InNumeral 'e')
    · exact fun c mem => inNumeral_of_readSign mem fun c mem => inNumeral_of_isDigit (digits c mem)

theorem inNumeral_of_takeWhile (mem : c ∈ cs)
    (behind : ∀ c ∈ cs.dropWhile Char.isDigit, InNumeral c.toLower) : InNumeral c.toLower := by
  rw [← List.takeWhile_append_dropWhile (p := Char.isDigit) (l := cs), List.mem_append] at mem
  rcases mem with mem | mem
  · exact inNumeral_of_isDigit (List.mem_takeWhile_imp mem)
  · exact behind c mem

theorem inNumeral_of_readFraction (mem : c ∈ cs) (behind : ∀ c ∈ (readFraction cs).2, InNumeral c.toLower) :
    InNumeral c.toLower := by
  unfold readFraction at behind
  split at behind
  · rcases List.mem_cons.mp mem with rfl | mem
    · exact (by decide : InNumeral '.')
    · exact inNumeral_of_takeWhile mem behind
  · exact behind c mem

theorem inNumeral_of_readDigits (reads : readDigits cs = some x) : ∀ c ∈ cs, InNumeral c.toLower := by
  unfold readDigits at reads
  simp only [] at reads
  split at reads
  · exact absurd reads (by simp)
  · obtain ⟨e, exponent, -⟩ := Option.map_eq_some_iff.mp reads
    exact fun c mem => inNumeral_of_takeWhile mem fun c mem =>
      inNumeral_of_readFraction mem (inNumeral_of_readExponent exponent)

theorem isFinite_readNamed (negative : Bool) (reads : readNamed cs = some x) :
    (if negative then -x else x).isFinite = false := by
  unfold readNamed at reads
  simp only [] at reads
  split at reads
  · obtain rfl := Option.some.inj reads
    cases negative <;> decide +kernel
  · split at reads
    · obtain rfl := Option.some.inj reads
      cases negative <;> decide +kernel
    · exact absurd reads (by simp)

theorem inNumeral_of_readNumeral (reads : readNumeral cs = some x) (finite : x.isFinite = true) :
    ∀ c ∈ cs, InNumeral c.toLower := by
  obtain ⟨y, unsigned, rfl⟩ := Option.map_eq_some_iff.mp reads
  rcases Option.or_eq_some_iff.mp ((Option.orElse_eq_or ..).symm.trans unsigned) with digits | ⟨-, named⟩
  · exact fun c mem => inNumeral_of_readSign mem (inNumeral_of_readDigits digits)
  · exact absurd ((isFinite_readNamed _ named).symm.trans finite) Bool.false_ne_true

theorem isBlank_or_mem_dropWhile (mem : c ∈ cs) : isBlank c = true ∨ c ∈ cs.dropWhile isBlank := by
  rw [← List.takeWhile_append_dropWhile (p := isBlank) (l := cs), List.mem_append] at mem
  exact mem.imp_left List.mem_takeWhile_imp

theorem isBlank_or_mem_trim (mem : c ∈ cs) : isBlank c = true ∨ c ∈ trim cs := by
  rcases isBlank_or_mem_dropWhile mem with blank | mem
  · exact .inl blank
  · rw [trim, List.mem_reverse]
    exact isBlank_or_mem_dropWhile (List.mem_reverse.mpr mem)

end LowerCaseLemmas

theorem inNumeral_of_ofText {s : String} {x : Float} (reads : ofText s = some x) :
    ∀ c ∈ s.toList, InNumeral c.toLower := by
  obtain ⟨reads, finite⟩ := Option.filter_eq_some_iff.mp reads
  intro c mem
  rcases isBlank_or_mem_trim mem with blank | mem
  · exact inNumeral_of_isBlank blank
  · exact inNumeral_of_readNumeral reads finite c mem

/-! ## Lower case -/

namespace LowerCaseLemmas

variable {c d : Char} {cs before : List Char} {n : Nat}

/-- Whether a run of letters and the images of these letters stay clear of numerals. -/
def isClear (run : CaseRun) : Bool :=
  numeralRanges.all fun range =>
    (run.last < range.1 || range.2 < run.first) &&
      (run.last + run.shift < range.1 || range.2 < run.first + run.shift)

theorem isClear_of_mem : ∀ run ∈ lowerRuns, isClear run = true := by decide +kernel

theorem pos_of_mem : ∀ range ∈ numeralRanges, 0 < range.1 := by decide

theorem toNat_ofNat_cases (n : Nat) : (Char.ofNat n).toNat = n ∨ (Char.ofNat n).toNat = 0 := by
  by_cases valid : n.isValidChar
  · rw [Char.ofNat, dif_pos valid]
    exact .inl rfl
  · rw [Char.ofNat, dif_neg valid]
    exact .inr rfl

/-- No letter with an image in a run is a character of a numeral, and neither is the image. -/
theorem not_inNumeral_of_run (image : lowerRuns.findSome? (·.map? c.toNat) = some n) :
    ¬InNumeral c ∧ ¬InNumeral (Char.ofNat n) := by
  obtain ⟨run, mem, image⟩ := List.exists_of_findSome?_eq_some image
  rw [CaseRun.map?, Option.ite_none_right_eq_some, Option.some_inj] at image
  obtain ⟨⟨low, high, -⟩, rfl⟩ := image
  have clear := List.all_eq_true.mp (isClear_of_mem run mem)
  simp only [Bool.and_eq_true, Bool.or_eq_true, decide_eq_true_eq] at clear
  refine ⟨fun inside => ?_, fun inside => ?_⟩ <;> obtain ⟨range, mem, inside⟩ := Ranges.has_iff.mp inside
  · have := (clear range mem).1
    omega
  · have := (clear range mem).2
    have := pos_of_mem range mem
    rcases toNat_ofNat_cases (c.toNat + run.shift).toNat with same | zero <;> omega

/-- The lower case of a character is that of ASCII where it is a character of a numeral, and where the character
with ASCII in lower case is one. -/
theorem lowerChar_cases (c : Char) :
    lowerChar c = [c.toLower] ∨ ¬InNumeral c.toLower ∧ ∃ d ∈ lowerChar c, ¬InNumeral d := by
  unfold lowerChar
  split
  · exact .inl rfl
  · rename_i high
    rw [toLower_of_high (Nat.le_of_not_lt high)]
    split
    · rename_i dotted
      subst dotted
      exact .inr ⟨by decide, 'i', by simp, by decide⟩
    · split
      · rename_i n image
        exact .inr ⟨(not_inNumeral_of_run image).1, _, List.mem_singleton_self _, (not_inNumeral_of_run image).2⟩
      · exact .inl rfl

end LowerCaseLemmas

/-- A text with only characters of numerals in lower case has only ASCII letters in upper case, and so has a text
which with these letters in lower case has only characters of numerals. -/
theorem lowerFrom_eq_map {before cs : List Char}
    (numeral : (∀ d ∈ lowerFrom before cs, InNumeral d) ∨ ∀ c ∈ cs, InNumeral c.toLower) :
    lowerFrom before cs = cs.map Char.toLower := by
  induction cs generalizing before with
  | nil => rfl
  | cons c cs ih =>
    rw [lowerFrom, List.forall_mem_append, List.forall_mem_cons] at numeral
    have first := numeral.imp And.left And.left
    rw [lowerFrom, List.map_cons, ih (numeral.imp And.right And.right)]
    split at first
    · rename_i sigma
      subst sigma
      refine absurd first (not_or.mpr ⟨?_, by decide⟩)
      rw [List.forall_mem_singleton]
      split <;> decide
    · rename_i plain
      rw [if_neg plain]
      rcases lowerChar_cases c with same | ⟨outside, d, mem, outside'⟩
      · rw [same, List.singleton_append]
      · rcases first with inside | inside
        · exact absurd (inside d mem) outside'
        · exact absurd inside outside

/-- A text that is the same as a numeral in lower case is a numeral too, of the same number. -/
theorem ofText_eq_of_lowercase_eq {s t : String} {x : Float} (same : lowercase s = lowercase t)
    (reads : ofText s = some x) : ofText t = some x := by
  have same : lowerFrom [] s.toList = lowerFrom [] t.toList := String.ofList_injective same
  have left : lowerFrom [] s.toList = s.toList.map Char.toLower :=
    lowerFrom_eq_map (.inr (inNumeral_of_ofText reads))
  have right : lowerFrom [] t.toList = t.toList.map Char.toLower := by
    refine lowerFrom_eq_map (.inl ?_)
    rw [← same, left, List.forall_mem_map]
    exact inNumeral_of_ofText reads
  have read (s : String) : readNumeral (trim (s.toList.map Char.toLower)) = readNumeral (trim s.toList) := by
    rw [trim_lower, readNumeral_lower]
  rw [ofText, ← read, ← right, ← same, left, read]
  exact reads

end RecordFormula.Number
