import Mathlib.Data.List.Induction
import RecordFormula.Proofs.Filters
import RecordFormula.Proofs.TreeCalls

/-!
# The extent of a call

A call ends at the parenthesis that closes the one behind its name, and what is between the two, cut at
the commas outside further parentheses, are its arguments. `Partner` and `AllInside` say so with the
levels of a list, without reading it.

Results:
1. `isArgument_iff`: what can be an argument, in terms of the parentheses around its tokens.
2. `exists_withCommas`: a balanced list is arguments with commas between them.
3. `exists_partner`: what closes more than it opens has a first parenthesis that closes too much.
4. `readAt_between_partners`: a call is read up to the partner of its parenthesis, if there is one.
-/

namespace RecordFormula

open NestingLemmas CallsLemmas FiltersLemmas ParenthesesLemmas

/-- Two parentheses of a list that belong together: what is between them is balanced. -/
structure Partner (ts : List Token) (opened closed : Nat) : Prop where
  opens : ts[opened]? = some (.operator .leftParen)
  closes : ts[closed]? = some (.operator .rightParen)
  behind : opened < closed
  balanced : Balanced ((ts.take closed).drop (opened + 1))

/-- Each token of a kind stands inside parentheses. -/
def AllInside (kind : Token → Bool) (ts : List Token) : Prop :=
  ∀ front t back, ts = front ++ t :: back → kind t = true → 0 < level front

/-- The index of the parenthesis that closes a call of a list. -/
def Call.closing (ts : List Token) (call : Call) : Nat := ts.length - (call.rest.length + 1)

/-! ## Levels -/

namespace CallSpansLemmas

variable {stop : Token → Bool} {depth index : Nat} {t : Token} {ts inner rest front back : List Token}

theorem isClosed_of_balanced (balanced : Balanced ts) : isClosed Token.never 0 ts = true :=
  parensBalanced_iff.mp (Option.isSome_iff_exists.mpr (exists_tokenNesting_iff.mpr balanced))

theorem level_pos_of_isClosed (closed : isClosed stop depth (front ++ t :: back) = true)
    (stops : stop t = true) (plain : t.isParen = false) : 0 < depth + level front := by
  induction front generalizing depth with
  | nil =>
    have inside : depth ≠ 0 := fun outside =>
      absurd (((isClosed_cons plain).mp closed).1 outside) (by simp [stops])
    rw [level_nil]
    omega
  | cons s front ih =>
    rw [level_cons]
    rcases s.paren_cases with rfl | rfl | other
    · have deeper : 0 < ((depth + 1 : Nat) : Int) + level front := ih closed
      rw [Token.change]
      omega
    · obtain ⟨outer, rfl, closed⟩ := isClosed_rightParen.mp closed
      have further := ih closed
      rw [Token.change]
      omega
    · rw [change_of_plain other, Int.zero_add]
      exact ih ((isClosed_cons other).mp closed).2

theorem allInside_of_isClosed (closed : isClosed stop 0 ts = true)
    (plain : ∀ t, stop t = true → t.isParen = false) : AllInside stop ts := by
  rintro front t back rfl stops
  simpa using level_pos_of_isClosed closed stops (plain t stops)

theorem isClosed_of_level (opened : ∀ front, front <+: ts → 0 ≤ depth + level front)
    (ends : depth + level ts = 0)
    (inside : ∀ front t back, ts = front ++ t :: back → stop t = true → 0 < depth + level front) :
    isClosed stop depth ts = true := by
  induction ts generalizing depth with
  | nil =>
    rw [level_nil] at ends
    exact isClosed_nil.mpr (by omega)
  | cons t ts ih =>
    obtain ⟨-, opened⟩ := forall_prefix_cons.mp opened
    have tail (next : Nat) (same : (next : Int) = depth + t.change) : isClosed stop next ts = true := by
      refine ih (fun front begins => ?_) ?_ fun front s back whole stops => ?_
      · have := opened front begins
        rw [level_cons] at this
        omega
      · rw [level_cons] at ends
        omega
      · have := inside (t :: front) s back (by rw [whole, List.cons_append]) stops
        rw [level_cons] at this
        omega
    rcases t.paren_cases with rfl | rfl | plain
    · exact tail (depth + 1) rfl
    · have first := opened [] List.nil_prefix
      rw [level_cons, level_nil, Token.change] at first
      obtain ⟨outer, rfl⟩ : ∃ outer, depth = outer + 1 := ⟨depth - 1, by omega⟩
      refine isClosed_rightParen.mpr ⟨outer, rfl, tail outer ?_⟩
      rw [Token.change]
      omega
    · refine (isClosed_cons plain).mpr ⟨fun outside => ?_, tail depth ?_⟩
      · rw [Bool.eq_false_iff]
        intro stops
        have deep := inside [] t ts rfl stops
        rw [level_nil] at deep
        omega
      · rw [change_of_plain plain, Int.add_zero]

theorem isParen_of_isComma (comma : t.isComma = true) : t.isParen = false := by
  rcases t.comma_cases with rfl | other
  · rfl
  · exact absurd (comma.symm.trans other) (by simp)

end CallSpansLemmas

open CallSpansLemmas

/-- What has balanced parentheses, and its commas inside them, is closed. -/
theorem isClosed_isComma_iff {ts : List Token} :
    isClosed Token.isComma 0 ts = true ↔ Balanced ts ∧ AllInside Token.isComma ts := by
  constructor
  · exact fun closed => ⟨balanced_of_isClosed closed, allInside_of_isClosed closed fun _ => isParen_of_isComma⟩
  · rintro ⟨balanced, inside⟩
    refine isClosed_of_level (fun front begins => ?_) ?_ fun front t back whole comma => ?_
    · simpa using balanced.opened front begins
    · simpa using balanced.closed
    · simpa using inside front t back whole comma

/-- What can stand between the commas of a call is not empty, has balanced parentheses, and has its own
commas inside them. -/
theorem isArgument_iff {ts : List Token} :
    IsArgument ts ↔ ts ≠ [] ∧ Balanced ts ∧ AllInside Token.isComma ts := by
  rw [← isClosed_isComma_iff]
  exact ⟨fun ⟨closed, full⟩ => ⟨full, closed⟩, fun ⟨full, closed⟩ => ⟨closed, full⟩⟩

/-- A list that closes its parentheses is written with commas between arguments, of which the first closes
what is open in front of it. -/
theorem exists_withCommas {depth : Nat} {ts : List Token}
    (closed : isClosed Token.never depth ts = true) :
    ∃ first more, withCommas first more = ts ∧ isClosed Token.isComma depth first = true ∧
      ∀ arg ∈ more, isClosed Token.isComma 0 arg = true := by
  induction ts generalizing depth with
  | nil => exact ⟨[], [], rfl, closed, fun _ mem => absurd mem List.not_mem_nil⟩
  | cons t ts ih =>
    rcases t.paren_cases with rfl | rfl | plain
    · have inner : isClosed Token.never (depth + 1) ts = true := closed
      obtain ⟨first, more, rfl, firstClosed, moreClosed⟩ := ih inner
      exact ⟨.operator .leftParen :: first, more, rfl, firstClosed, moreClosed⟩
    · obtain ⟨outer, rfl, inner⟩ := isClosed_rightParen.mp closed
      obtain ⟨first, more, rfl, firstClosed, moreClosed⟩ := ih inner
      exact ⟨.operator .rightParen :: first, more, rfl,
        isClosed_rightParen.mpr ⟨outer, rfl, firstClosed⟩, moreClosed⟩
    · obtain ⟨first, more, rfl, firstClosed, moreClosed⟩ := ih ((isClosed_cons plain).mp closed).2
      rcases t.cut_cases depth with ⟨rfl, rfl⟩ | inside
      · refine ⟨[], first :: more, by simp [withCommas], rfl, fun arg mem => ?_⟩
        rcases List.mem_cons.mp mem with rfl | mem
        · exact firstClosed
        · exact moreClosed arg mem
      · exact ⟨t :: first, more, rfl, (isClosed_cons plain).mpr ⟨inside, firstClosed⟩, moreClosed⟩

/-- Where more parentheses are closed than opened, the first that is closed too much has balanced ones in
front of it. -/
theorem exists_partner {ts front : List Token} (inside : front <+: ts) (below : level front < 0) :
    ∃ inner rest, ts = inner ++ .operator .rightParen :: rest ∧ Balanced inner := by
  -- From the end: in front of its last token the list is below level 0 already, or it is balanced there.
  induction ts using List.reverseRecOn generalizing front with
  | nil =>
    rw [List.prefix_nil.mp inside, level_nil] at below
    omega
  | append_singleton ts t ih =>
    by_cases early : ∃ front, front <+: ts ∧ level front < 0
    · obtain ⟨front, inside, below⟩ := early
      obtain ⟨inner, rest, rfl, balanced⟩ := ih inside below
      exact ⟨inner, rest ++ [t], by simp, balanced⟩
    · have opened : ∀ front, front <+: ts → 0 ≤ level front := fun front inside =>
        Int.not_lt.mp fun below => early ⟨front, inside, below⟩
      rcases List.prefix_concat_iff.mp inside with rfl | inside
      · have atEnd := opened ts (List.prefix_refl ts)
        rw [level_append, level_cons, level_nil] at below
        rcases t.paren_cases with rfl | rfl | plain
        · rw [Token.change] at below
          omega
        · rw [Token.change] at below
          exact ⟨ts, [], rfl, opened, by omega⟩
        · rw [change_of_plain plain] at below
          omega
      · exact absurd below (Int.not_lt.mpr (opened front inside))

/-! ## Reading -/

namespace CallSpansLemmas

variable {opened closed index : Nat} {t : Token} {ts inner rest first : List Token}
  {more : List (List Token)} {pieces : Pieces}

theorem intercalate_eq (first : List Token) (more : List (List Token)) :
    [Token.operator .comma].intercalate (first :: more) = withCommas first more := by
  induction more generalizing first with
  | nil => simp [withCommas]
  | cons second more ih =>
    rw [List.intercalate_cons_cons, ih, withCommas_cons]
    simp

theorem intercalate_args : [Token.operator .comma].intercalate pieces.args =
    withCommas pieces.first pieces.more := by
  rw [Pieces.args]
  split
  · rename_i empty
    rw [Bool.and_eq_true, List.isEmpty_iff, List.isEmpty_iff] at empty
    rw [empty.1, empty.2]
    rfl
  · exact intercalate_eq _ _

theorem args_eq_nil_iff : pieces.args = [] ↔ withCommas pieces.first pieces.more = [] := by
  rw [Pieces.args]
  split
  · rename_i empty
    rw [Bool.and_eq_true, List.isEmpty_iff, List.isEmpty_iff] at empty
    simp [empty.1, empty.2, withCommas]
  · rename_i full
    rw [Bool.and_eq_true, List.isEmpty_iff, List.isEmpty_iff] at full
    refine ⟨fun impossible => absurd impossible (List.cons_ne_nil _ _), fun empty => absurd ?_ full⟩
    rw [withCommas, List.append_eq_nil_iff] at empty
    refine ⟨empty.1, ?_⟩
    cases more : pieces.more with
    | nil => rfl
    | cons arg more => simp [more] at empty

/-- A call is read up to the parenthesis in front of which its parentheses are balanced. -/
theorem exists_read?_of_balanced (balanced : Balanced inner) (rest : List Token) :
    ∃ pieces, Pieces.read? 0 (inner ++ .operator .rightParen :: rest) = some pieces ∧
      withCommas pieces.first pieces.more = inner ∧ pieces.rest = rest := by
  obtain ⟨first, more, rfl, firstClosed, moreClosed⟩ :=
    exists_withCommas (isClosed_of_balanced balanced)
  exact ⟨{ first, more, rest }, read?_eq_some_iff.mpr ⟨firstClosed, moreClosed, rfl⟩, rfl, rfl⟩

theorem balanced_of_read? (found : Pieces.read? 0 ts = some pieces) :
    ∃ inner, ts = inner ++ .operator .rightParen :: pieces.rest ∧ Balanced inner :=
  ⟨_, (read?_eq_some_iff.mp found).2.2,
    balanced_of_isClosed (isClosed_withCommas fun _ => isClosed_of_mem_pieces found)⟩

/-- The partner of a parenthesis is the one up to which the list behind it is balanced. -/
theorem partner_of_balanced (opens : ts[opened]? = some (.operator .leftParen))
    (whole : ts.drop (opened + 1) = inner ++ .operator .rightParen :: rest) (balanced : Balanced inner) :
    Partner ts opened (opened + 1 + inner.length) where
  opens := opens
  closes := by
    rw [← List.getElem?_drop, whole, List.getElem?_append_right (Nat.le_refl _), Nat.sub_self]
    rfl
  behind := by omega
  balanced := by
    rw [List.drop_take, whole, Nat.add_sub_cancel_left, List.take_left]
    exact balanced

theorem drop_of_partner (partner : Partner ts opened closed) :
    ts.drop (opened + 1) =
      (ts.take closed).drop (opened + 1) ++ .operator .rightParen :: ts.drop (closed + 1) := by
  obtain ⟨-, closes, behind, -⟩ := partner
  obtain ⟨bound, same⟩ := List.getElem?_eq_some_iff.mp closes
  have cut : ts = ts.take closed ++ .operator .rightParen :: ts.drop (closed + 1) := by
    rw [← same, ← List.drop_eq_getElem_cons bound, List.take_append_drop]
  have early : opened + 1 ≤ (ts.take closed).length := by
    rw [List.length_take]
    omega
  calc ts.drop (opened + 1)
    _ = (ts.take closed ++ .operator .rightParen :: ts.drop (closed + 1)).drop (opened + 1) := by
      rw [← cut]
    _ = _ := List.drop_append_of_le_length early

/-- Up to its partner a parenthesis has no beginning behind it that closes more than it opens. -/
theorem level_nonneg_of_early {front beginning : List Token}
    (opens : ts[opened]? = some (.operator .leftParen)) (inside : front <+: ts.drop (opened + 1))
    (early : ∀ closed, Partner ts opened closed → opened + 1 + front.length ≤ closed)
    (begins : beginning <+: front) : 0 ≤ level beginning := by
  refine Int.not_lt.mp fun below => ?_
  -- The first parenthesis that is closed too much would be the partner.
  obtain ⟨inner, rest, rfl, balanced⟩ := exists_partner begins below
  obtain ⟨behind, whole⟩ := inside
  rw [List.append_assoc, List.cons_append] at whole
  have later := early _ (partner_of_balanced opens whole.symm balanced)
  rw [List.length_append, List.length_cons] at later
  omega

theorem exists_depth {front : List Token} {depth : Nat}
    (opened : ∀ beginning, beginning <+: front → 0 ≤ depth + level beginning) :
    ∃ reached : Nat, (reached : Int) = depth + level front ∧ ∀ back,
      (Pieces.read? depth (front ++ back)).map Pieces.rest = (Pieces.read? reached back).map Pieces.rest := by
  induction front generalizing depth with
  | nil => exact ⟨depth, by simp, fun _ => rfl⟩
  | cons t front ih =>
    obtain ⟨-, further⟩ := forall_prefix_cons.mp opened
    have passed {pieces : Option Pieces} :
        (pieces.map (Pieces.cons t)).map Pieces.rest = pieces.map Pieces.rest := by
      cases pieces <;> rfl
    rcases t.paren_cases with rfl | rfl | plain
    · have deeper : ∀ beginning, beginning <+: front → 0 ≤ ((depth + 1 : Nat) : Int) + level beginning := by
        intro beginning begins
        have := further beginning begins
        rw [level_cons, Token.change] at this
        omega
      obtain ⟨reached, level, goesOn⟩ := ih deeper
      refine ⟨reached, ?_, fun back => ?_⟩
      · rw [level_cons, Token.change]
        omega
      · rw [List.cons_append, read?_leftParen, passed, goesOn]
    · have here := further [] List.nil_prefix
      rw [level_cons, level_nil, Token.change] at here
      obtain ⟨outer, rfl⟩ : ∃ outer, depth = outer + 1 := ⟨depth - 1, by omega⟩
      have shallower : ∀ beginning, beginning <+: front → 0 ≤ (outer : Int) + level beginning := by
        intro beginning begins
        have := further beginning begins
        rw [level_cons, Token.change] at this
        omega
      obtain ⟨reached, level, goesOn⟩ := ih shallower
      refine ⟨reached, ?_, fun back => ?_⟩
      · rw [level_cons, Token.change]
        omega
      · rw [List.cons_append, read?_rightParen_succ, passed, goesOn]
    · have same (beginning : List Token) : level (t :: beginning) = level beginning := by
        rw [level_cons, change_of_plain plain, Int.zero_add]
      obtain ⟨reached, level, goesOn⟩ := ih fun beginning begins => same beginning ▸ further beginning begins
      refine ⟨reached, by rw [same, level], fun back => ?_⟩
      rw [List.cons_append, ← goesOn]
      rcases t.cut_cases depth with ⟨rfl, rfl⟩ | inside
      · rw [read?_comma]
        cases Pieces.read? 0 (front ++ back) <;> rfl
      · rw [read?_cons plain inside, passed]

/-- A name in front of a parenthesis is read as a call, a keyword too. -/
theorem readAt_eq {word : String} (name : ts[index]? = some t)
    (named : t = .function word ∨ t = .field word)
    (opens : ts[index + 1]? = some (.operator .leftParen)) :
    Call.readAt ts index =
      match Pieces.read? 0 (ts.drop (index + 1 + 1)) with
      | some pieces => .ok { name := t.callName, args := pieces.args, rest := pieces.rest }
      | none => .error .unbalancedParentheses := by
  obtain ⟨nameBound, isName⟩ := List.getElem?_eq_some_iff.mp name
  obtain ⟨openBound, isOpen⟩ := List.getElem?_eq_some_iff.mp opens
  rw [Call.readAt, List.drop_eq_getElem_cons nameBound, List.drop_eq_getElem_cons openBound, isName,
    isOpen]
  rcases named with rfl | rfl <;> rfl

end CallSpansLemmas

/-- A call is read up to the partner of its parenthesis: its arguments are balanced and have their commas
inside parentheses, and with commas between them they are what stands between the two parentheses, none if
nothing stands there. Where the parenthesis has no partner the call is not read. As long as the partner has
not come, the reading counts the parentheses that are open inside the call, and never less than none. -/
theorem readAt_between_partners {ts : List Token} {index : Nat} {t : Token} {word : String}
    (name : ts[index]? = some t) (named : t = .function word ∨ t = .field word)
    (opens : ts[index + 1]? = some (.operator .leftParen)) :
    (∀ closed, Partner ts (index + 1) closed →
      ∃ call, Call.readAt ts index = .ok call ∧ call.name = t.callName ∧
        call.closing ts = closed ∧ call.rest = ts.drop (closed + 1) ∧
        (∀ arg ∈ call.args, Balanced arg ∧ AllInside Token.isComma arg) ∧
        [Token.operator .comma].intercalate call.args = (ts.take closed).drop (index + 2) ∧
        (call.args = [] ↔ closed = index + 2)) ∧
    ((¬ ∃ closed, Partner ts (index + 1) closed) →
      Call.readAt ts index = .error .unbalancedParentheses) ∧
    ∀ front, front <+: ts.drop (index + 2) →
      (∀ closed, Partner ts (index + 1) closed → index + 2 + front.length ≤ closed) →
      ∃ depth : Nat, (depth : Int) = level front ∧ ∀ back,
        (Pieces.read? 0 (front ++ back)).map Pieces.rest =
          (Pieces.read? depth back).map Pieces.rest := by
  have read := readAt_eq name named opens
  refine ⟨fun closed partner => ?_, fun alone => ?_, fun front inside early => ?_⟩
  · have behind := partner.behind
    obtain ⟨bound, -⟩ := List.getElem?_eq_some_iff.mp partner.closes
    obtain ⟨pieces, found, written, rest⟩ :=
      exists_read?_of_balanced partner.balanced (ts.drop (closed + 1))
    rw [drop_of_partner partner, found] at read
    refine ⟨_, read, rfl, ?_, rest, fun arg mem => ?_, intercalate_args.trans written, ?_⟩
    · rw [Call.closing, rest, List.length_drop]
      omega
    · have argClosed := isClosed_of_mem_pieces found (Pieces.mem_of_mem_args mem)
      exact ⟨balanced_of_isClosed argClosed, allInside_of_isClosed argClosed fun _ => isParen_of_isComma⟩
    · rw [args_eq_nil_iff, written, List.drop_eq_nil_iff, List.length_take]
      omega
  · cases found : Pieces.read? 0 (ts.drop (index + 1 + 1)) with
    | none => rw [read, found]
    | some pieces =>
      obtain ⟨inner, whole, balanced⟩ := balanced_of_read? found
      exact absurd ⟨_, partner_of_balanced opens whole balanced⟩ alone
  · have opened : ∀ beginning, beginning <+: front → 0 ≤ ((0 : Nat) : Int) + level beginning :=
      fun beginning begins => by
        simpa using level_nonneg_of_early opens inside early begins
    simpa using exists_depth opened

/-- The tokens of `2 * IF((paid, due), RATIO(due, paid), 0) ) (`. -/
def nestedChoice : List Token :=
  [.number 2, .operator .star, .function "IF", .operator .leftParen, .operator .leftParen, .field "paid",
    .operator .comma, .field "due", .operator .rightParen, .operator .comma, .function "RATIO",
    .operator .leftParen, .field "due", .operator .comma, .field "paid", .operator .rightParen,
    .operator .comma, .number 0, .operator .rightParen, .operator .rightParen, .operator .leftParen]

/-- Commas in inner parentheses do not cut the arguments, and what is wrong behind the call does not
matter. -/
theorem nestedChoice_has_three_arguments :
    nestedChoice[2]? = some (.function "IF") ∧ nestedChoice[3]? = some (.operator .leftParen) ∧
      Partner nestedChoice 3 18 ∧
      ∃ call, Call.readAt nestedChoice 2 = .ok call ∧ call.args.length = 3 ∧
        call.closing nestedChoice = 18 ∧
        [Token.operator .comma].intercalate call.args = (nestedChoice.take 18).drop 4 := by
  have closed : isClosed Token.never 0 ((nestedChoice.take 18).drop 4) = true := rfl
  have partner : Partner nestedChoice 3 18 := ⟨rfl, rfl, by omega, balanced_of_isClosed closed⟩
  obtain ⟨call, read, -, closing, -, -, written, -⟩ :=
    (@readAt_between_partners nestedChoice 2 (.function "IF") "IF" rfl (.inl rfl) rfl).1 18 partner
  have three : (Call.readAt nestedChoice 2).map (·.args.length) = .ok 3 := rfl
  rw [read] at three
  exact ⟨rfl, rfl, partner, call, read, Except.ok.inj three, closing, written⟩

end RecordFormula
