import RecordFormula.Proofs.Failure
import RecordFormula.Proofs.Trees

/-!
# Conditions

How conditions are written: a name, a comparison and a literal that may have a sign, with a word `AND`
between two comparisons. Reading a condition takes exactly the tokens that write it. A literal starts
with no character that could go on with a comparison, so it is never unclear where one ends. No token
is a comma or a parenthesis, so a condition stays in the argument that it was written in.

Results:
1. `Comparison.written_of_read` and `Comparison.read_of_written`: a comparison is read off what writes
   it.
2. `Condition.readAll_iff`: a token list is read as the comparisons that it writes.
3. `Condition.written_of_parse` and `Condition.parse_of_written`: so is it parsed.
4. `Condition.parse_eq_ok_iff_isWritten`: the lists that can be written, and what they are parsed as.
5. `isClosed_of_parse`: the tokens of a condition are a closed list.
-/

namespace RecordFormula

open NestingLemmas

/-! ## How conditions are written -/

/-- How a literal is written. -/
inductive Literal.IsWritten : Literal → List Token → Prop
  | number (x : Float) : IsWritten (.number x) [.number x]
  | text (s : String) : IsWritten (.text s) [.text s]
  | negative (x : Float) : IsWritten (.number (-x)) [.operator .minus, .number x]
  | positive (x : Float) : IsWritten (.number x) [.operator .plus, .number x]

/-- A literal that is no text, or one that is compared for equality. -/
def Literal.Admits (op : Comparator) : Literal → Prop
  | .number _ => True
  | .text _ => op.isEquality = true

/-- How a comparison is written. -/
inductive Comparison.IsWritten : Comparison → List Token → Prop
  | intro {field : String} {op : Comparator} {literal : Literal} {written : List Token} :
      isReserved field = false → literal.Admits op → literal.IsWritten written →
      IsWritten { field, op, literal } (.field field :: (op.operators.map .operator ++ written))

/-- How comparisons are written that are joined to a condition. -/
inductive Condition.IsWritten : List Comparison → List Token → Prop
  | last {comparison : Comparison} {ts : List Token} :
      comparison.IsWritten ts → IsWritten [comparison] ts
  | more {comparison : Comparison} {comparisons : List Comparison} {keyword : Token}
      {front back : List Token} :
      comparison.IsWritten front → keyword.isAnd = true → IsWritten comparisons back →
      IsWritten (comparison :: comparisons) (front ++ keyword :: back)

/-! ## Pieces -/

namespace ConditionLemmas

variable {op : Comparator} {literal : Literal} {comparison : Comparison} {ts rest written : List Token}

theorem operators_of_ofOperator? {first : Operator} (found : Comparator.ofOperator? first = some op) :
    op.operators = [first] := by
  cases first <;> simp only [Comparator.ofOperator?, Option.some.injEq, reduceCtorEq] at found <;>
    subst found <;> rfl

theorem operators_of_ofPair? {first second : Operator}
    (found : Comparator.ofPair? first second = some op) : op.operators = [first, second] := by
  unfold Comparator.ofPair? at found
  split at found <;> simp only [Option.some.injEq, reduceCtorEq] at found <;> subst found <;> rfl

theorem written_of_comparator (found : Comparator.read? ts = some (op, rest)) :
    ts = op.operators.map .operator ++ rest := by
  unfold Comparator.read? at found
  split at found
  · split at found
    · rename_i pair
      obtain ⟨rfl, rfl⟩ := Prod.mk.inj (Option.some.inj found)
      rw [operators_of_ofPair? pair]
      rfl
    · obtain ⟨_, single, same⟩ := Option.map_eq_some_iff.mp found
      obtain ⟨rfl, rfl⟩ := Prod.mk.inj same
      rw [operators_of_ofOperator? single]
      rfl
  · obtain ⟨_, single, same⟩ := Option.map_eq_some_iff.mp found
    obtain ⟨rfl, rfl⟩ := Prod.mk.inj same
    rw [operators_of_ofOperator? single]
    rfl
  · exact absurd found (by simp)

/-- A token list that does not go on with a comparison in front of it. -/
def Ends (ts : List Token) : Prop :=
  ∀ first second rest, ts = .operator second :: rest → Comparator.ofPair? first second = none

theorem comparator_of_written (ends : Ends rest) :
    Comparator.read? (op.operators.map .operator ++ rest) = some (op, rest) := by
  have single {first : Operator} (found : Comparator.ofOperator? first = some op) :
      Comparator.read? (.operator first :: rest) = some (op, rest) := by
    unfold Comparator.read?
    split
    · rename_i same
      obtain ⟨head, rfl⟩ := List.cons.inj same
      obtain rfl := Token.operator.inj head
      rw [ends first _ _ rfl, found]
      rfl
    · rename_i same
      obtain ⟨head, rfl⟩ := List.cons.inj same
      obtain rfl := Token.operator.inj head
      rw [found]
      rfl
    · rename_i _ other
      exact absurd rfl (other first rest)
  cases op with
  | equal | less | greater => exact single rfl
  | notEqual | lessEqual | greaterEqual => rfl

/-- A literal is no part of the comparison in front of it. -/
theorem ends_of_literal (isWritten : literal.IsWritten written) : Ends (written ++ rest) := by
  intro first second behind same
  cases isWritten with
  | number | text => exact absurd (List.cons.inj same).1 (by simp)
  | negative | positive =>
    obtain rfl := Token.operator.inj (List.cons.inj same).1
    cases first <;> rfl

theorem literal_read?_iff :
    Literal.read? ts = some (literal, rest) ↔
      ∃ written, literal.IsWritten written ∧ ts = written ++ rest := by
  constructor
  · intro found
    unfold Literal.read? at found
    split at found
    · obtain ⟨rfl, rfl⟩ := Prod.mk.inj (Option.some.inj found)
      exact ⟨_, .number _, rfl⟩
    · obtain ⟨rfl, rfl⟩ := Prod.mk.inj (Option.some.inj found)
      exact ⟨_, .text _, rfl⟩
    · obtain ⟨rfl, rfl⟩ := Prod.mk.inj (Option.some.inj found)
      exact ⟨_, .negative _, rfl⟩
    · obtain ⟨rfl, rfl⟩ := Prod.mk.inj (Option.some.inj found)
      exact ⟨_, .positive _, rfl⟩
    · exact absurd found (by simp)
  · rintro ⟨_, isWritten, rfl⟩
    cases isWritten <;> rfl

end ConditionLemmas

open ConditionLemmas

/-! ## Comparisons -/

/-- What a comparison is read from writes it. -/
theorem Comparison.written_of_read {ts rest : List Token} {comparison : Comparison}
    (found : Comparison.read ts = .ok (comparison, rest)) :
    ∃ written, comparison.IsWritten written ∧ ts = written ++ rest := by
  unfold Comparison.read at found
  split at found
  · exact absurd found (by simp)
  · rename_i field behind
    split at found
    · exact absurd found (by simp)
    · rename_i free
      have free : isReserved field = false := by simpa using free
      split at found
      · exact absurd found (by simp)
      · rename_i op more isOp
        obtain rfl := written_of_comparator isOp
        split at found
        · exact absurd found (by simp)
        · rename_i s last isLiteral
          obtain ⟨written, isWritten, rfl⟩ := literal_read?_iff.mp isLiteral
          split at found
          · rename_i equality
            obtain ⟨rfl, rfl⟩ := Prod.mk.inj (Except.ok.inj found)
            exact ⟨_, .intro free equality isWritten, by simp⟩
          · exact absurd found (by simp)
        · rename_i literal last noText isLiteral
          obtain ⟨written, isWritten, rfl⟩ := literal_read?_iff.mp isLiteral
          obtain ⟨rfl, rfl⟩ := Prod.mk.inj (Except.ok.inj found)
          have admits : literal.Admits op := by
            cases literal with
            | number x => trivial
            | text s => exact absurd rfl (noText s)
          exact ⟨_, .intro free admits isWritten, by simp⟩
  · exact absurd found (by simp)

/-- A comparison is read off what writes it, whatever stands behind. -/
theorem Comparison.read_of_written {written : List Token} {comparison : Comparison}
    (isWritten : comparison.IsWritten written) (rest : List Token) :
    Comparison.read (written ++ rest) = .ok (comparison, rest) := by
  cases isWritten with
  | @intro field op literal written free admits isWritten =>
    have isOp : Comparator.read? (op.operators.map .operator ++ (written ++ rest)) =
        some (op, written ++ rest) := comparator_of_written (ends_of_literal isWritten)
    have isLiteral : Literal.read? (written ++ rest) = some (literal, rest) :=
      literal_read?_iff.mpr ⟨written, isWritten, rfl⟩
    rw [List.cons_append, List.append_assoc, Comparison.read, free]
    simp only [Bool.false_eq_true, if_false, isOp, isLiteral]
    cases literal with
    | number x => rfl
    | text s =>
      have equality : op.isEquality = true := admits
      rw [equality]
      rfl

/-! ## Conditions -/

namespace ConditionLemmas

variable {comparison : Comparison} {comparisons : List Comparison} {keyword : Token}
  {ts rest : List Token}

theorem readAll_eq (ts : List Token) :
    Condition.readAll ts =
      match Comparison.read ts with
      | .error reason => .error reason
      | .ok (comparison, []) => .ok [comparison]
      | .ok (comparison, t :: rest) =>
        if t.isAnd then do
          let comparisons ← Condition.readAll rest
          pure (comparison :: comparisons)
        else .error (.trailing t.display) := by
  rw [Condition.readAll.eq_def]
  split <;> rename_i found <;> rw [found]

theorem readAll_of_last (last : Comparison.read ts = .ok (comparison, [])) :
    Condition.readAll ts = .ok [comparison] := by
  rw [readAll_eq, last]

theorem readAll_of_more (first : Comparison.read ts = .ok (comparison, keyword :: rest))
    (isKeyword : keyword.isAnd = true) (more : Condition.readAll rest = .ok comparisons) :
    Condition.readAll ts = .ok (comparison :: comparisons) := by
  rw [readAll_eq, first]
  dsimp only
  rw [if_pos isKeyword, more]
  rfl

end ConditionLemmas

/-- A token list is read as the comparisons that it writes. -/
theorem Condition.readAll_iff {ts : List Token} {comparisons : List Comparison} :
    Condition.readAll ts = .ok comparisons ↔ Condition.IsWritten comparisons ts := by
  constructor
  · intro found
    induction length : ts.length using Nat.strongRecOn generalizing ts comparisons with
    | ind n ih =>
      subst length
      rw [Condition.readAll.eq_def] at found
      split at found
      · exact absurd found (by simp)
      · rename_i comparison first
        obtain ⟨written, isWritten, rfl⟩ := Comparison.written_of_read first
        obtain rfl := Except.ok.inj found
        rw [List.append_nil]
        exact .last isWritten
      · rename_i comparison t rest first
        have shorter := Comparison.length_of_read first
        rw [List.length_cons] at shorter
        split at found
        · rename_i keyword
          obtain ⟨others, more, same⟩ := exists_of_bind_eq_ok found
          obtain rfl := Except.ok.inj same
          obtain ⟨written, isWritten, rfl⟩ := Comparison.written_of_read first
          exact .more isWritten keyword (ih rest.length (by omega) more rfl)
        · exact absurd found (by simp)
  · intro isWritten
    induction isWritten with
    | last isWritten =>
      have last := Comparison.read_of_written isWritten []
      rw [List.append_nil] at last
      exact readAll_of_last last
    | more isWritten isKeyword _ ih =>
      exact readAll_of_more (Comparison.read_of_written isWritten _) isKeyword ih

theorem ConditionLemmas.ne_nil_of_written {comparisons : List Comparison} {ts : List Token}
    (isWritten : Condition.IsWritten comparisons ts) : ts ≠ [] := by
  cases isWritten with
  | last isWritten =>
    cases isWritten
    exact List.cons_ne_nil _ _
  | more => simp

/-- What is parsed as a condition writes its comparisons. -/
theorem Condition.written_of_parse {ts : List Token} {condition : Condition}
    (parsed : Condition.parse ts = .ok condition) :
    Condition.IsWritten condition.comparisons ts := by
  unfold Condition.parse at parsed
  split at parsed
  · exact absurd parsed (by simp)
  · split at parsed
    · rename_i found
      rw [← Except.ok.inj parsed]
      exact Condition.readAll_iff.mp found
    · exact absurd parsed (by simp)

/-- What writes comparisons is parsed as their condition. -/
theorem Condition.parse_of_written {ts : List Token} {comparisons : List Comparison}
    (isWritten : Condition.IsWritten comparisons ts) : Condition.parse ts = .ok ⟨comparisons⟩ := by
  have full : ts.isEmpty = false := List.isEmpty_eq_false_iff.mpr (ne_nil_of_written isWritten)
  rw [Condition.parse, full, Condition.readAll_iff.mpr isWritten]
  rfl

/-- A comparison that can be written: its field is no keyword, and a text is compared for equality. -/
def Comparison.IsProper (comparison : Comparison) : Prop :=
  isReserved comparison.field = false ∧ comparison.literal.Admits comparison.op

namespace ConditionLemmas

theorem exists_literal (literal : Literal) : ∃ ts, literal.IsWritten ts := by
  cases literal with
  | number x => exact ⟨_, .number x⟩
  | text s => exact ⟨_, .text s⟩

theorem exists_comparison {comparison : Comparison} (proper : comparison.IsProper) :
    ∃ ts, comparison.IsWritten ts := by
  obtain ⟨field, op, literal⟩ := comparison
  obtain ⟨free, admits⟩ := proper
  obtain ⟨written, isWritten⟩ := exists_literal literal
  exact ⟨_, .intro free admits isWritten⟩

theorem exists_written (comparison : Comparison) (comparisons : List Comparison)
    (proper : ∀ other ∈ comparison :: comparisons, other.IsProper) :
    ∃ ts, Condition.IsWritten (comparison :: comparisons) ts := by
  obtain ⟨front, isFront⟩ := exists_comparison (proper comparison List.mem_cons_self)
  induction comparisons generalizing comparison front with
  | nil => exact ⟨front, .last isFront⟩
  | cons second comparisons ih =>
    have behind := fun other mem => proper other (List.mem_cons_of_mem _ mem)
    obtain ⟨next, isNext⟩ := exists_comparison (behind second List.mem_cons_self)
    obtain ⟨back, isBack⟩ := ih second behind next isNext
    have keyword : (Token.field andWord).isAnd = true := by decide
    exact ⟨_, .more isFront keyword isBack⟩

theorem isProper_of_written {comparison : Comparison} {ts : List Token}
    (isWritten : comparison.IsWritten ts) : comparison.IsProper := by
  cases isWritten with
  | intro free admits _ => exact ⟨free, admits⟩

theorem proper_of_written {comparisons : List Comparison} {ts : List Token}
    (isWritten : Condition.IsWritten comparisons ts) :
    comparisons ≠ [] ∧ ∀ comparison ∈ comparisons, comparison.IsProper := by
  induction isWritten with
  | last isWritten =>
    refine ⟨List.cons_ne_nil _ _, fun comparison mem => ?_⟩
    obtain rfl := List.mem_singleton.mp mem
    exact isProper_of_written isWritten
  | more isWritten _ _ ih =>
    refine ⟨List.cons_ne_nil _ _, fun comparison mem => ?_⟩
    rcases List.mem_cons.mp mem with rfl | mem
    · exact isProper_of_written isWritten
    · exact ih.2 comparison mem

end ConditionLemmas

/-- A token list is parsed as exactly the condition whose comparisons it writes, in their order. What can
be written, and so parsed, is every list of comparisons that is not empty, in which no field is a keyword
and texts are compared for equality. -/
theorem Condition.parse_eq_ok_iff_isWritten (condition : Condition) :
    (∀ ts, Condition.parse ts = .ok condition ↔ Condition.IsWritten condition.comparisons ts) ∧
      ((∃ ts, Condition.parse ts = .ok condition) ↔
        condition.comparisons ≠ [] ∧ ∀ comparison ∈ condition.comparisons, comparison.IsProper) := by
  have parsed : ∀ ts,
      Condition.parse ts = .ok condition ↔ Condition.IsWritten condition.comparisons ts :=
    fun ts => ⟨Condition.written_of_parse, Condition.parse_of_written⟩
  refine ⟨parsed, fun ⟨ts, found⟩ => proper_of_written ((parsed ts).mp found), ?_⟩
  rintro ⟨full, proper⟩
  obtain ⟨comparison, comparisons, same⟩ := List.exists_cons_of_ne_nil full
  obtain ⟨ts, isWritten⟩ := exists_written comparison comparisons (same ▸ proper)
  exact ⟨ts, (parsed ts).mpr (same ▸ isWritten)⟩

/-- Two conditions with an `AND` between them are one. -/
theorem Condition.IsWritten.append {first second : List Comparison} {keyword : Token}
    {front back : List Token} (isFirst : Condition.IsWritten first front)
    (isKeyword : keyword.isAnd = true) (isSecond : Condition.IsWritten second back) :
    Condition.IsWritten (first ++ second) (front ++ keyword :: back) := by
  induction isFirst with
  | last comparison => exact .more comparison isKeyword isSecond
  | more comparison between _ ih =>
    rw [List.append_assoc, List.cons_append, List.cons_append]
    exact .more comparison between ih

/-! ## Commas and parentheses -/

namespace ConditionLemmas

/-- A token that is neither a parenthesis nor a comma. -/
def IsFlat (t : Token) : Prop := t.isParen = false ∧ t.isComma = false

theorem flat_of_operators {op : Comparator} {t : Token} (mem : t ∈ op.operators.map Token.operator) :
    IsFlat t := by
  obtain ⟨c, listed, rfl⟩ := List.mem_map.mp mem
  cases op <;> simp [Comparator.operators] at listed <;> rcases listed with rfl | rfl <;>
    exact ⟨rfl, rfl⟩

theorem flat_of_literal {literal : Literal} {ts : List Token} (isWritten : literal.IsWritten ts)
    {t : Token} (mem : t ∈ ts) : IsFlat t := by
  cases isWritten <;> simp at mem
  · exact mem ▸ ⟨rfl, rfl⟩
  · exact mem ▸ ⟨rfl, rfl⟩
  · rcases mem with rfl | rfl <;> exact ⟨rfl, rfl⟩
  · rcases mem with rfl | rfl <;> exact ⟨rfl, rfl⟩

theorem flat_of_comparison {comparison : Comparison} {ts : List Token}
    (isWritten : comparison.IsWritten ts) {t : Token} (mem : t ∈ ts) : IsFlat t := by
  cases isWritten with
  | intro _ _ isLiteral =>
    rcases List.mem_cons.mp mem with rfl | mem
    · exact ⟨rfl, rfl⟩
    · exact (List.mem_append.mp mem).elim flat_of_operators (flat_of_literal isLiteral)

theorem flat_of_isAnd {t : Token} (keyword : t.isAnd = true) : IsFlat t := by
  cases t with
  | operator op => exact absurd keyword (by simp [Token.isAnd, Token.isKeyword])
  | _ => exact ⟨rfl, rfl⟩

theorem flat_of_condition {comparisons : List Comparison} {ts : List Token}
    (isWritten : Condition.IsWritten comparisons ts) {t : Token} (mem : t ∈ ts) : IsFlat t := by
  induction isWritten with
  | last isWritten => exact flat_of_comparison isWritten mem
  | more isWritten keyword _ ih =>
    rcases List.mem_append.mp mem with mem | mem
    · exact flat_of_comparison isWritten mem
    · rcases List.mem_cons.mp mem with rfl | mem
      · exact flat_of_isAnd keyword
      · exact ih mem

end ConditionLemmas

/-- A condition has no commas and no parentheses. -/
theorem isClosed_of_parse {tokens : List Token} {condition : Condition}
    (parsed : Condition.parse tokens = .ok condition) : isClosed Token.isComma 0 tokens = true := by
  have closed : ∀ ts : List Token, (∀ t ∈ ts, IsFlat t) → isClosed Token.isComma 0 ts = true := by
    intro ts flat
    induction ts with
    | nil => rfl
    | cons t ts ih =>
      obtain ⟨paren, comma⟩ := flat t List.mem_cons_self
      exact (isClosed_cons paren).mpr
        ⟨fun _ => comma, ih fun t mem => flat t (List.mem_cons_of_mem _ mem)⟩
  exact closed tokens fun _ => flat_of_condition (Condition.written_of_parse parsed)

end RecordFormula
