import RecordFormula.Structure

/-!
# Nesting

Reading a call, splitting an argument at its `WHERE` and skipping a condition all count the
parentheses that are open. This module says what they cut a token list into.

`isClosed stop depth ts`: the list `ts` closes the `depth` parentheses that are open before it and
every one that it opens, and no token of `stop` is outside parentheses at its end. An argument of a
call is closed with `stop` the comma, and the value in front of a `WHERE` has no `WHERE` outside
parentheses either.

Results:
1. `read?_eq_some_iff`: a call is read into closed arguments with commas between them.
2. `exists_read?`: where parentheses balance, each call has its end.
3. `splitWhereFrom_eq_some` and `splitWhereFrom_eq_none`: the value of an argument has no `WHERE`, and
   nothing but the keyword is between it and the condition.
4. `argumentEnd_append`: what is skipped is the rest of the argument.
-/

namespace RecordFormula

namespace Token

/-- Whether a token is a parenthesis. -/
def isParen : Token → Bool
  | .operator .leftParen => true
  | .operator .rightParen => true
  | _ => false

/-- Whether a token is a comma. -/
def isComma : Token → Bool
  | .operator .comma => true
  | _ => false

/-- Whether a token ends the value of an argument. -/
def endsArgument (t : Token) : Bool := t.isComma || t.isWhere

/-- No token is a comma that ends a whole expression. -/
def never (_ : Token) : Bool := false

theorem paren_cases (t : Token) :
    t = .operator .leftParen ∨ t = .operator .rightParen ∨ t.isParen = false := by
  cases t with
  | operator op => cases op <;> simp [isParen]
  | _ => simp [isParen]

theorem comma_cases (t : Token) : t = .operator .comma ∨ t.isComma = false := by
  cases t with
  | operator op => cases op <;> simp [isComma]
  | _ => simp [isComma]

/-- Arguments are cut at the commas outside parentheses. -/
theorem cut_cases (t : Token) (depth : Nat) :
    (depth = 0 ∧ t = .operator .comma) ∨ (depth = 0 → t.isComma = false) := by
  rcases t.comma_cases with comma | other
  · cases depth with
    | zero => exact .inl ⟨rfl, comma⟩
    | succ depth => exact .inr fun outside => absurd outside (Nat.succ_ne_zero depth)
  · exact .inr fun _ => other

theorem isParen_of_isWhere {t : Token} (keyword : t.isWhere = true) : t.isParen = false := by
  cases t with
  | operator op => simp [isWhere, isKeyword] at keyword
  | _ => rfl

theorem isComma_of_isWhere {t : Token} (keyword : t.isWhere = true) : t.isComma = false := by
  cases t with
  | operator op => simp [isWhere, isKeyword] at keyword
  | _ => rfl

end Token

/-! ## Closed lists -/

/-- Whether a token list closes the parentheses that are open before it and all that it opens, with
no token of `stop` outside them. -/
def isClosed (stop : Token → Bool) (depth : Nat) : List Token → Bool
  | [] => depth == 0
  | t :: ts =>
    match t with
    | .operator .leftParen => isClosed stop (depth + 1) ts
    | .operator .rightParen => decide (0 < depth) && isClosed stop (depth - 1) ts
    | t => (depth != 0 || !stop t) && isClosed stop depth ts

namespace NestingLemmas

variable {stop : Token → Bool} {depth : Nat} {t : Token} {ts : List Token}

theorem isClosed_nil : isClosed stop depth [] = true ↔ depth = 0 := by
  simp [isClosed]

theorem isClosed_rightParen :
    isClosed stop depth (.operator .rightParen :: ts) = true ↔
      ∃ inner, depth = inner + 1 ∧ isClosed stop inner ts = true := by
  cases depth with
  | zero => simp [isClosed]
  | succ inner => simp [isClosed]

theorem free_of_respects {less : Token → Bool} (respects : less t = true → stop t = true)
    (free : stop t = false) : less t = false := by
  cases stopped : less t with
  | false => rfl
  | true =>
    rw [respects stopped] at free
    exact free

theorem isClosed_cons (plain : t.isParen = false) :
    isClosed stop depth (t :: ts) = true ↔
      (depth = 0 → stop t = false) ∧ isClosed stop depth ts = true := by
  have unfolded : isClosed stop depth (t :: ts) =
      ((depth != 0 || !stop t) && isClosed stop depth ts) := by
    cases t with
    | operator op => cases op <;> first | rfl | simp [Token.isParen] at plain
    | _ => rfl
  rw [unfolded, Bool.and_eq_true]
  cases depth with
  | zero => simp
  | succ depth => simp

theorem tokenNestingFrom_cons {deepest : Nat} (plain : t.isParen = false) :
    tokenNestingFrom depth deepest (t :: ts) = tokenNestingFrom depth deepest ts := by
  cases t with
  | operator op => cases op <;> first | rfl | simp [Token.isParen] at plain
  | _ => rfl

end NestingLemmas

open NestingLemmas

/-- A closed list in front of another is passed over. Outside parentheses it has to respect what stops
the whole, inside them it need not. -/
theorem isClosed_append {stop inner : Token → Bool} {depth outer : Nat} {front back : List Token}
    (closed : isClosed inner depth front = true)
    (respects : outer = 0 → ∀ t, stop t = true → inner t = true) :
    isClosed stop (outer + depth) (front ++ back) = isClosed stop outer back := by
  induction front generalizing depth with
  | nil =>
    rw [isClosed_nil] at closed
    subst closed
    rfl
  | cons t ts ih =>
    rcases t.paren_cases with rfl | rfl | plain
    · exact ih closed
    · obtain ⟨depth, rfl, tail⟩ := isClosed_rightParen.mp closed
      rw [← ih tail, List.cons_append, Bool.eq_iff_iff, isClosed_rightParen]
      constructor
      · rintro ⟨depth', same, whole⟩
        rwa [show outer + depth = depth' by omega]
      · exact fun whole => ⟨outer + depth, rfl, whole⟩
    · obtain ⟨free, tail⟩ := (isClosed_cons plain).mp closed
      rw [← ih tail, List.cons_append, Bool.eq_iff_iff, isClosed_cons plain]
      exact ⟨And.right, fun whole =>
        ⟨fun outside => free_of_respects (respects (by omega) t) (free (by omega)), whole⟩⟩

theorem isClosed_group {stop inner : Token → Bool} {ts : List Token} (closed : isClosed inner 0 ts = true) :
    isClosed stop 0 (.operator .leftParen :: (ts ++ [.operator .rightParen])) = true := by
  have passed : isClosed stop (1 + 0) (ts ++ [.operator .rightParen]) =
      isClosed stop 1 [.operator .rightParen] :=
    isClosed_append closed fun outside => absurd outside (by simp)
  exact passed.trans rfl

theorem isClosed_mono {stop stop' : Token → Bool} {depth : Nat} {ts : List Token}
    (weaker : ∀ t, stop' t = true → stop t = true) (closed : isClosed stop depth ts = true) :
    isClosed stop' depth ts = true := by
  have whole : isClosed stop' (0 + depth) (ts ++ []) = isClosed stop' 0 [] :=
    isClosed_append closed fun _ => weaker
  rw [Nat.zero_add, List.append_nil] at whole
  rw [whole]
  rfl

theorem isClosed_never {stop : Token → Bool} {depth : Nat} {ts : List Token}
    (closed : isClosed stop depth ts = true) : isClosed Token.never depth ts = true :=
  isClosed_mono (fun _ impossible => absurd impossible (by simp [Token.never])) closed

/-- The parentheses of a list balance exactly if it is closed. -/
theorem parensBalanced_iff {ts : List Token} :
    parensBalanced ts = true ↔ isClosed Token.never 0 ts = true := by
  have general : ∀ depth deepest : Nat,
      (tokenNestingFrom depth deepest ts).isSome = true ↔ isClosed Token.never depth ts = true := by
    induction ts with
    | nil =>
      intro depth deepest
      by_cases outside : depth = 0 <;> simp [tokenNestingFrom, isClosed, outside]
    | cons t ts ih =>
      intro depth deepest
      rcases t.paren_cases with rfl | rfl | plain
      · exact ih (depth + 1) (max deepest (depth + 1))
      · cases depth with
        | zero => simp [tokenNestingFrom, isClosed]
        | succ depth => simpa [tokenNestingFrom, isClosed] using ih depth deepest
      · rw [isClosed_cons plain, ← ih depth deepest]
        rw [tokenNestingFrom_cons plain]
        simp [Token.never]
  exact general 0 0

/-! ## Calls -/

/-- The arguments as they are written, with commas between them. -/
def withCommas (first : List Token) (more : List (List Token)) : List Token :=
  first ++ more.flatMap fun arg => .operator .comma :: arg

namespace NestingLemmas

/-- More tokens in front of the first piece. -/
def prepend (front : List Token) (pieces : Pieces) : Pieces :=
  { pieces with first := front ++ pieces.first }

theorem read?_leftParen {depth : Nat} {ts : List Token} :
    Pieces.read? depth (.operator .leftParen :: ts) =
      (Pieces.read? (depth + 1) ts).map (Pieces.cons (.operator .leftParen)) := rfl

theorem read?_rightParen_succ {depth : Nat} {ts : List Token} :
    Pieces.read? (depth + 1) (.operator .rightParen :: ts) =
      (Pieces.read? depth ts).map (Pieces.cons (.operator .rightParen)) := rfl

theorem read?_end {ts : List Token} :
    Pieces.read? 0 (.operator .rightParen :: ts) = some { first := [], more := [], rest := ts } := rfl

theorem read?_comma {ts : List Token} :
    Pieces.read? 0 (.operator .comma :: ts) = (Pieces.read? 0 ts).map fun pieces =>
      { pieces with first := [], more := pieces.first :: pieces.more } := rfl

theorem read?_cons {depth : Nat} {t : Token} {ts : List Token} (plain : t.isParen = false)
    (inside : depth = 0 → t.isComma = false) :
    Pieces.read? depth (t :: ts) = (Pieces.read? depth ts).map (Pieces.cons t) := by
  cases t with
  | operator op =>
    cases op with
    | leftParen | rightParen => simp [Token.isParen] at plain
    | comma =>
      cases depth with
      | zero => simp [Token.isComma] at inside
      | succ depth => rfl
    | _ => rfl
  | _ => rfl

end NestingLemmas

/-- A closed list in front of the rest of a call belongs to the argument it stands in. -/
theorem read?_append {stop : Token → Bool} {depth outer : Nat} {front back : List Token}
    (closed : isClosed stop depth front = true)
    (respects : outer = 0 → ∀ t, t.isComma = true → stop t = true) :
    Pieces.read? (outer + depth) (front ++ back) =
      (Pieces.read? outer back).map (prepend front) := by
  induction front generalizing depth with
  | nil =>
    rw [isClosed_nil] at closed
    subst closed
    show Pieces.read? outer back = (Pieces.read? outer back).map id
    rw [Option.map_id_fun, id]
  | cons t ts ih =>
    have extend {depth : Nat} (tail : isClosed stop depth ts = true) :
        (Pieces.read? (outer + depth) (ts ++ back)).map (Pieces.cons t) =
          (Pieces.read? outer back).map (prepend (t :: ts)) := by
      rw [ih tail, Option.map_map]
      rfl
    rcases t.paren_cases with rfl | rfl | plain
    · have tail : isClosed stop (depth + 1) ts = true := closed
      exact extend tail
    · obtain ⟨depth, rfl, tail⟩ := isClosed_rightParen.mp closed
      exact extend tail
    · obtain ⟨free, tail⟩ := (isClosed_cons plain).mp closed
      rw [List.cons_append, read?_cons plain, extend tail]
      exact fun outside => free_of_respects (respects (by omega) t) (free (by omega))

/-- Reading the arguments of a call finds exactly the closed lists between the commas up to the
parenthesis that closes the call. -/
theorem read?_eq_some_iff {depth : Nat} {ts : List Token} {pieces : Pieces} :
    Pieces.read? depth ts = some pieces ↔
      isClosed Token.isComma depth pieces.first = true ∧
      (∀ arg ∈ pieces.more, isClosed Token.isComma 0 arg = true) ∧
      ts = withCommas pieces.first pieces.more ++ .operator .rightParen :: pieces.rest := by
  constructor
  · intro found
    induction ts generalizing depth pieces with
    | nil => simp [Pieces.read?] at found
    | cons t ts ih =>
      rcases t.paren_cases with rfl | rfl | plain
      · rw [read?_leftParen, Option.map_eq_some_iff] at found
        obtain ⟨inner, found, rfl⟩ := found
        obtain ⟨first, more, whole⟩ := ih found
        exact ⟨first, more, congrArg (Token.operator .leftParen :: ·) whole⟩
      · cases depth with
        | zero =>
          rw [read?_end, Option.some.injEq] at found
          subst found
          exact ⟨rfl, by simp, rfl⟩
        | succ depth =>
          rw [read?_rightParen_succ, Option.map_eq_some_iff] at found
          obtain ⟨inner, found, rfl⟩ := found
          obtain ⟨first, more, whole⟩ := ih found
          exact ⟨isClosed_rightParen.mpr ⟨depth, rfl, first⟩, more,
            congrArg (Token.operator .rightParen :: ·) whole⟩
      · rcases t.cut_cases depth with ⟨rfl, rfl⟩ | inside
        · rw [read?_comma, Option.map_eq_some_iff] at found
          obtain ⟨inner, found, rfl⟩ := found
          obtain ⟨first, more, whole⟩ := ih found
          refine ⟨rfl, ?_, by rw [whole]; simp [withCommas]⟩
          intro arg mem
          rcases List.mem_cons.mp mem with rfl | mem
          · exact first
          · exact more arg mem
        · rw [read?_cons plain inside, Option.map_eq_some_iff] at found
          obtain ⟨inner, found, rfl⟩ := found
          obtain ⟨first, more, whole⟩ := ih found
          exact ⟨(isClosed_cons plain).mpr ⟨inside, first⟩, more, congrArg (t :: ·) whole⟩
  · -- A whole piece is passed over at once, so the induction is on the pieces behind the first.
    obtain ⟨first, more, rest⟩ := pieces
    rintro ⟨closed, others, rfl⟩
    induction more generalizing depth first with
    | nil =>
      have passed : Pieces.read? (0 + depth) (first ++ .operator .rightParen :: rest) = _ :=
        read?_append closed fun _ _ comma => comma
      rw [Nat.zero_add] at passed
      simp [withCommas, passed, read?_end, prepend]
    | cons arg more ih =>
      have passed : Pieces.read? (0 + depth) (first ++ .operator .comma ::
          (withCommas arg more ++ .operator .rightParen :: rest)) = _ :=
        read?_append closed fun _ _ comma => comma
      have behind := ih arg (others arg (by simp)) fun other mem => others other (by simp [mem])
      rw [Nat.zero_add, read?_comma, behind] at passed
      simpa [withCommas, prepend] using passed

theorem isClosed_of_mem_pieces {ts arg : List Token} {pieces : Pieces}
    (found : Pieces.read? 0 ts = some pieces) (mem : arg ∈ pieces.first :: pieces.more) :
    isClosed Token.isComma 0 arg = true := by
  obtain ⟨first, more, -⟩ := read?_eq_some_iff.mp found
  rcases List.mem_cons.mp mem with rfl | mem
  · exact first
  · exact more arg mem

/-- Where the parentheses balance, a call that has been opened is closed again, and what is behind it
is balanced too. -/
theorem exists_read? {stop : Token → Bool} {depth outer : Nat} {ts : List Token}
    (closed : isClosed stop (outer + 1 + depth) ts = true) :
    ∃ pieces, Pieces.read? depth ts = some pieces ∧ isClosed stop outer pieces.rest = true := by
  induction ts generalizing depth with
  | nil =>
    rw [isClosed_nil] at closed
    omega
  | cons t ts ih =>
    rcases t.paren_cases with rfl | rfl | plain
    · have tail : isClosed stop (outer + 1 + (depth + 1)) ts = true := closed
      obtain ⟨pieces, found, rest⟩ := ih tail
      exact ⟨pieces.cons _, by rw [read?_leftParen, found]; rfl, rest⟩
    · obtain ⟨inner, same, tail⟩ := isClosed_rightParen.mp closed
      cases depth with
      | zero => exact ⟨_, read?_end, by rwa [show inner = outer by omega] at tail⟩
      | succ depth =>
        rw [show inner = outer + 1 + depth by omega] at tail
        obtain ⟨pieces, found, rest⟩ := ih tail
        exact ⟨pieces.cons _, by rw [read?_rightParen_succ, found]; rfl, rest⟩
    · obtain ⟨pieces, found, rest⟩ := ih ((isClosed_cons plain).mp closed).2
      rcases t.cut_cases depth with ⟨rfl, rfl⟩ | inside
      · exact ⟨{ pieces with first := [], more := pieces.first :: pieces.more },
          by rw [read?_comma, found]; rfl, rest⟩
      · exact ⟨pieces.cons t, by rw [read?_cons plain inside, found]; rfl, rest⟩

theorem exists_around_arg {depth : Nat} {ts : List Token} {pieces : Pieces} {arg : List Token}
    (found : Pieces.read? depth ts = some pieces) (mem : arg ∈ pieces.first :: pieces.more) :
    ∃ before closing after, ts = before ++ arg ++ .operator closing :: after ∧
      (closing = .comma ∨ closing = .rightParen) := by
  have between : ∀ (first : List Token) (more : List (List Token)), arg ∈ first :: more →
      ∃ before closing after,
        withCommas first more ++ .operator .rightParen :: pieces.rest =
          before ++ arg ++ .operator closing :: after ∧
        (closing = .comma ∨ closing = .rightParen) := by
    intro first more
    induction more generalizing first with
    | nil =>
      intro mem
      rw [List.mem_singleton] at mem
      subst mem
      exact ⟨[], .rightParen, pieces.rest, by simp [withCommas], .inr rfl⟩
    | cons second more ih =>
      intro mem
      rcases List.mem_cons.mp mem with rfl | mem
      · exact ⟨[], .comma, withCommas second more ++ .operator .rightParen :: pieces.rest,
          by simp [withCommas], .inl rfl⟩
      · obtain ⟨before, closing, after, whole, ends⟩ := ih second mem
        refine ⟨first ++ .operator .comma :: before, closing, after, ?_, ends⟩
        have step : withCommas first (second :: more) =
            first ++ .operator .comma :: withCommas second more := by
          simp [withCommas]
        rw [step, List.append_assoc, List.cons_append, whole]
        simp
  obtain ⟨-, -, whole⟩ := read?_eq_some_iff.mp found
  rw [whole]
  exact between _ _ mem

/-! ## The value and the condition of an argument -/

namespace NestingLemmas

theorem splitWhereFrom_leftParen {depth : Nat} {ts : List Token} :
    splitWhereFrom depth (.operator .leftParen :: ts) =
      (splitWhereFrom (depth + 1) ts).map fun parts =>
        (.operator .leftParen :: parts.1, parts.2) := rfl

theorem splitWhereFrom_rightParen {depth : Nat} {ts : List Token} :
    splitWhereFrom depth (.operator .rightParen :: ts) =
      (splitWhereFrom (depth - 1) ts).map fun parts =>
        (.operator .rightParen :: parts.1, parts.2) := rfl

theorem splitWhereFrom_cons {depth : Nat} {t : Token} {ts : List Token} (plain : t.isParen = false) :
    splitWhereFrom depth (t :: ts) =
      if depth = 0 ∧ t.isWhere = true then some ([], ts)
      else (splitWhereFrom depth ts).map fun parts => (t :: parts.1, parts.2) := by
  cases t with
  | operator op => cases op <;> first | rfl | simp [Token.isParen] at plain
  | _ => rfl

end NestingLemmas

/-- An argument is split at a `WHERE`: the value in front of it has none outside parentheses, and the
condition is what is behind it. -/
theorem splitWhereFrom_eq_some {depth : Nat} {ts value condition : List Token}
    (closed : isClosed Token.isComma depth ts = true)
    (found : splitWhereFrom depth ts = some (value, condition)) :
    ∃ keyword, Token.isWhere keyword = true ∧ ts = value ++ keyword :: condition ∧
      isClosed Token.endsArgument depth value = true ∧
      isClosed Token.isComma 0 condition = true := by
  induction ts generalizing depth value with
  | nil => simp [splitWhereFrom] at found
  | cons t ts ih =>
    rcases t.paren_cases with rfl | rfl | plain
    · rw [splitWhereFrom_leftParen, Option.map_eq_some_iff] at found
      obtain ⟨⟨front, behind⟩, found, same⟩ := found
      obtain ⟨rfl, rfl⟩ := Prod.mk.inj same
      have tail : isClosed Token.isComma (depth + 1) ts = true := closed
      obtain ⟨keyword, isWhere, rfl, before, after⟩ := ih tail found
      exact ⟨keyword, isWhere, rfl, before, after⟩
    · rw [splitWhereFrom_rightParen, Option.map_eq_some_iff] at found
      obtain ⟨⟨front, behind⟩, found, same⟩ := found
      obtain ⟨rfl, rfl⟩ := Prod.mk.inj same
      obtain ⟨depth, rfl, tail⟩ := isClosed_rightParen.mp closed
      obtain ⟨keyword, isWhere, rfl, before, after⟩ := ih tail found
      exact ⟨keyword, isWhere, rfl, isClosed_rightParen.mpr ⟨depth, rfl, before⟩, after⟩
    · obtain ⟨free, tail⟩ := (isClosed_cons plain).mp closed
      rw [splitWhereFrom_cons plain] at found
      split at found
      · rename_i split
        obtain ⟨rfl, isWhere⟩ := split
        obtain ⟨rfl, rfl⟩ := Prod.mk.inj (Option.some.inj found)
        exact ⟨t, isWhere, rfl, rfl, tail⟩
      · rename_i passed
        rw [Option.map_eq_some_iff] at found
        obtain ⟨⟨front, behind⟩, found, same⟩ := found
        obtain ⟨rfl, rfl⟩ := Prod.mk.inj same
        obtain ⟨keyword, isWhere, rfl, before, after⟩ := ih tail found
        refine ⟨keyword, isWhere, rfl, (isClosed_cons plain).mpr ⟨fun outside => ?_, before⟩, after⟩
        have value : t.isWhere = false := by simpa [outside] using passed
        rw [Token.endsArgument, free outside, value]
        rfl

/-- An argument that is not split has no `WHERE` outside parentheses. -/
theorem splitWhereFrom_eq_none {depth : Nat} {ts : List Token}
    (closed : isClosed Token.isComma depth ts = true) (absent : splitWhereFrom depth ts = none) :
    isClosed Token.endsArgument depth ts = true := by
  induction ts generalizing depth with
  | nil => exact closed
  | cons t ts ih =>
    rcases t.paren_cases with rfl | rfl | plain
    · rw [splitWhereFrom_leftParen, Option.map_eq_none_iff] at absent
      have tail : isClosed Token.isComma (depth + 1) ts = true := closed
      exact ih tail absent
    · rw [splitWhereFrom_rightParen, Option.map_eq_none_iff] at absent
      obtain ⟨depth, rfl, tail⟩ := isClosed_rightParen.mp closed
      exact isClosed_rightParen.mpr ⟨depth, rfl, ih tail absent⟩
    · obtain ⟨free, tail⟩ := (isClosed_cons plain).mp closed
      rw [splitWhereFrom_cons plain] at absent
      split at absent
      · simp at absent
      · rename_i passed
        rw [Option.map_eq_none_iff] at absent
        refine (isClosed_cons plain).mpr ⟨fun outside => ?_, ih tail absent⟩
        have value : t.isWhere = false := by simpa [outside] using passed
        rw [Token.endsArgument, free outside, value]
        rfl

/-- A list without `WHERE` outside parentheses in front of the rest of an argument belongs to its
value. -/
theorem splitWhereFrom_append {stop : Token → Bool} {depth : Nat} {front back : List Token}
    (closed : isClosed stop depth front = true)
    (respects : ∀ t, t.isWhere = true → stop t = true) :
    splitWhereFrom depth (front ++ back) =
      (splitWhereFrom 0 back).map fun parts => (front ++ parts.1, parts.2) := by
  induction front generalizing depth with
  | nil =>
    rw [isClosed_nil] at closed
    subst closed
    show splitWhereFrom 0 back = (splitWhereFrom 0 back).map id
    rw [Option.map_id_fun, id]
  | cons t ts ih =>
    rcases t.paren_cases with rfl | rfl | plain
    · have tail : isClosed stop (depth + 1) ts = true := closed
      rw [List.cons_append, splitWhereFrom_leftParen, ih tail, Option.map_map]
      rfl
    · obtain ⟨depth, rfl, tail⟩ := isClosed_rightParen.mp closed
      rw [List.cons_append, splitWhereFrom_rightParen, Nat.add_sub_cancel, ih tail,
        Option.map_map]
      rfl
    · obtain ⟨free, tail⟩ := (isClosed_cons plain).mp closed
      have passed : ¬ (depth = 0 ∧ t.isWhere = true) := by
        rintro ⟨outside, isWhere⟩
        rw [free_of_respects (respects t) (free outside)] at isWhere
        exact absurd isWhere (by simp)
      rw [List.cons_append, splitWhereFrom_cons plain, if_neg passed, ih tail, Option.map_map]
      rfl

/-! ## The end of an argument -/

namespace NestingLemmas

theorem argumentEnd_cons {depth : Nat} {t : Token} {ts : List Token} (plain : t.isParen = false)
    (inside : depth = 0 → t.isComma = false) :
    argumentEnd depth (t :: ts) = argumentEnd depth ts := by
  cases t with
  | operator op =>
    cases op with
    | leftParen | rightParen => simp [Token.isParen] at plain
    | comma =>
      cases depth with
      | zero => simp [Token.isComma] at inside
      | succ depth => rfl
    | _ => rfl
  | _ => rfl

end NestingLemmas

theorem argumentEnd_suffix {ts : List Token} : ∀ depth, argumentEnd depth ts <:+ ts := by
  induction ts with
  | nil => exact fun _ => List.suffix_refl []
  | cons t ts ih =>
    intro depth
    rcases t.paren_cases with rfl | rfl | plain
    · exact (ih (depth + 1)).trans (List.suffix_cons _ _)
    · cases depth with
      | zero => exact List.suffix_refl _
      | succ depth => exact (ih depth).trans (List.suffix_cons _ _)
    · rcases t.cut_cases depth with ⟨rfl, rfl⟩ | inside
      · exact List.suffix_refl _
      · rw [argumentEnd_cons plain inside]
        exact (ih depth).trans (List.suffix_cons _ _)

/-- A closed list is skipped on the way to the end of the argument that it stands in. -/
theorem argumentEnd_append {stop : Token → Bool} {depth outer : Nat} {front back : List Token}
    (closed : isClosed stop depth front = true)
    (respects : outer = 0 → ∀ t, t.isComma = true → stop t = true) :
    argumentEnd (outer + depth) (front ++ back) = argumentEnd outer back := by
  induction front generalizing depth with
  | nil =>
    rw [isClosed_nil] at closed
    subst closed
    rfl
  | cons t ts ih =>
    rcases t.paren_cases with rfl | rfl | plain
    · have tail : isClosed stop (depth + 1) ts = true := closed
      exact ih tail
    · obtain ⟨depth, rfl, tail⟩ := isClosed_rightParen.mp closed
      exact ih tail
    · obtain ⟨free, tail⟩ := (isClosed_cons plain).mp closed
      rw [List.cons_append, argumentEnd_cons plain, ih tail]
      exact fun outside => free_of_respects (respects (by omega) t) (free (by omega))

/-- The end of an argument whose call is closed in the list is found in the list. -/
theorem argumentEnd_append_of_inside {stop : Token → Bool} {depth outer : Nat}
    {front back : List Token} (closed : isClosed stop (outer + 1 + depth) front = true) :
    argumentEnd depth (front ++ back) = argumentEnd depth front ++ back ∧
      isClosed stop (outer + 1) (argumentEnd depth front) = true := by
  induction front generalizing depth with
  | nil =>
    rw [isClosed_nil] at closed
    omega
  | cons t ts ih =>
    rcases t.paren_cases with rfl | rfl | plain
    · have tail : isClosed stop (outer + 1 + (depth + 1)) ts = true := closed
      exact ih tail
    · cases depth with
      | zero => exact ⟨rfl, closed⟩
      | succ depth =>
        obtain ⟨inner, same, tail⟩ := isClosed_rightParen.mp closed
        rw [show inner = outer + 1 + depth by omega] at tail
        exact ih tail
    · rcases t.cut_cases depth with ⟨rfl, rfl⟩ | inside
      · exact ⟨rfl, closed⟩
      · rw [List.cons_append, argumentEnd_cons plain inside, argumentEnd_cons plain inside]
        exact ih ((isClosed_cons plain).mp closed).2

end RecordFormula
