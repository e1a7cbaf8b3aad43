import RecordFormula.Proofs.CallFree
import RecordFormula.Proofs.CallSpans
import RecordFormula.Proofs.TreeEvaluation

/-!
# Parentheses around a list

While a group is read, the rows in which parentheses were opened around it wait as they are, and its value
then joins the innermost of them. What the group reduces to, or fails for, is what it does by itself: this
needs no more of it than that its parentheses are balanced.

Results:
1. `reduceFrom_of_closed`: a list is reduced inside a group as it is reduced alone.
2. `reduceFrom_group`: a group adds its value to the row that it stands in.
3. `evaluate_grouped`: parentheses around a whole list change nothing.
-/

namespace RecordFormula

open CallsLemmas CallFreeLemmas CallSpansLemmas CheckedLemmas FiltersLemmas NestingLemmas ResolveLemmas
  TreeLemmas

/-- A list in parentheses. -/
def grouped (ts : List Token) : List Token :=
  .operator .leftParen :: (ts ++ [.operator .rightParen])

variable {stop : Token → Bool} {eval : Evaluator} {ctx : Context} {ts back : List Token}
  {inner outer : List (List Term)} {row last terms : List Term}

namespace GroupsLemmas

theorem plain_of_termOf {t : Token} {term : Term} (found : termOf ctx t = .ok term)
    (noParen : t.isParen = false) : Plain term := by
  rcases termOf_cases found with ⟨op, rfl, rfl⟩ | ⟨-, value, rfl⟩
  · constructor <;> rintro ⟨⟩ <;> simp [Token.isParen] at noParen
  · exact plain_value value

theorem resolve_rightParen :
    resolve eval ctx (.operator .rightParen :: back) =
      (resolve eval ctx back).map (.operator .rightParen :: ·) := by
  rw [resolve_of_plain startsCall_operator]
  cases resolve eval ctx back <;> rfl

end GroupsLemmas

open GroupsLemmas

/-- Up to the parenthesis behind it a list is reduced as if it were alone. -/
theorem reduceFrom_of_closed (closed : isClosed stop inner.length ts = true)
    (resolved : resolve eval ctx ts = .ok terms) (begun : inner = [] → ts = [] → row ≠ [])
    (back : List Term) :
    reduceFrom (inner ++ last :: outer) row (terms ++ .operator .rightParen :: back) =
      reduceFrom inner row terms >>= fun value => reduceFrom outer (last ++ [.value value]) back := by
  -- `inner` are the rows that the list has opened itself. Only when there are none left can it end.
  induction ts using resolve_induction generalizing inner row terms with
  | nil =>
    rw [resolve] at resolved
    obtain rfl := Except.ok.inj resolved
    obtain rfl := List.eq_nil_of_length_eq_zero (isClosed_nil.mp closed)
    exact reduceFrom_rightParen (begun rfl rfl)
  | unread t ts reason starts failed =>
    obtain ⟨call, found, -⟩ := exists_call starts closed
    exact absurd (failed.symm.trans found) (by simp)
  | call t ts call starts found ih =>
    obtain ⟨_, alsoFound, tailClosed⟩ := exists_call starts closed
    obtain rfl := Except.ok.inj (found.symm.trans alsoFound)
    obtain ⟨_, value, more, alsoFound, -, tail, rfl⟩ := exists_of_resolve_call starts resolved
    obtain rfl := Except.ok.inj (found.symm.trans alsoFound)
    rw [List.cons_append, reduceFrom_cons (plain_value value), reduceFrom_cons (plain_value value)]
    exact ih tailClosed tail fun _ _ => by simp
  | plain t ts isPlain ih =>
    obtain ⟨term, more, isTerm, tail, rfl⟩ := exists_of_resolve_plain isPlain resolved
    rw [List.cons_append]
    rcases t.paren_cases with rfl | rfl | noParen
    · obtain rfl := Except.ok.inj isTerm
      have deeper : isClosed stop (row :: inner).length ts = true := closed
      exact ih deeper tail fun opened => absurd opened (by simp)
    · obtain rfl := Except.ok.inj isTerm
      obtain ⟨depth, length, tailClosed⟩ := isClosed_rightParen.mp closed
      cases inner with
      | nil => exact absurd length (by simp)
      | cons before inner =>
        obtain rfl := Nat.succ.inj length
        by_cases empty : row = []
        · subst empty
          rfl
        · rw [List.cons_append, reduceFrom_rightParen empty, reduceFrom_rightParen empty]
          cases reduceFlat row with
          | error reason => rfl
          | ok value => exact ih tailClosed tail fun _ _ => by simp
    · have joins := plain_of_termOf isTerm noParen
      rw [reduceFrom_cons joins, reduceFrom_cons joins]
      exact ih ((isClosed_cons noParen).mp closed).2 tail fun _ _ => by simp

/-- A group is resolved by itself, whatever is behind it. -/
theorem resolve_group (closed : isClosed stop 0 ts = true) (back : List Token) :
    resolve eval ctx (grouped ts ++ back) = (do
      let terms ← resolve eval ctx ts
      let more ← resolve eval ctx back
      pure (.operator .leftParen :: (terms ++ .operator .rightParen :: more))) := by
  rw [grouped, List.cons_append, List.append_assoc, resolve_of_plain startsCall_operator,
    resolve_append closed (by simp), List.singleton_append, resolve_rightParen]
  cases resolve eval ctx ts with
  | error reason => rfl
  | ok terms => cases resolve eval ctx back <;> rfl

/-- A group adds the value that its list has by itself to the row. -/
theorem reduceFrom_group (closed : isClosed stop 0 ts = true) (full : ts ≠ [])
    (resolved : resolve eval ctx ts = .ok terms) (back : List Term) :
    reduceFrom outer row (.operator .leftParen :: (terms ++ .operator .rightParen :: back)) =
      reduce terms >>= fun value => reduceFrom outer (row ++ [.value value]) back := by
  rw [reduceFrom_leftParen]
  exact @reduceFrom_of_closed stop eval ctx ts [] outer [] row terms closed resolved
    (fun _ empty => absurd empty full) back

/-- Parentheses around a list that is not empty do not change its value, nor what it fails for. They have
to be balanced in the list, and nothing else has to be right with it. -/
theorem evaluate_grouped {ts : List Token} (full : ts ≠ []) (balanced : Balanced ts) (ctx : Context) :
    evaluate (grouped ts) ctx = evaluate ts ctx := by
  have closed := isClosed_of_balanced balanced
  have resolved : resolve evaluate ctx (grouped ts) = _ :=
    (congrArg _ (List.append_nil _).symm).trans (resolve_group closed [])
  rw [evaluate_eq, evaluate_eq, evaluateLevel, evaluateLevel, resolved, resolve]
  cases found : resolve evaluate ctx ts with
  | error reason => rfl
  | ok terms =>
    have group : reduceFrom [] [] (.operator .leftParen :: (terms ++ [.operator .rightParen])) =
        reduce terms >>= fun value => reduce [.value value] := reduceFrom_group closed full found []
    have alone : (reduce terms >>= fun value => reduce [.value value]) = reduce terms := by
      rw [funext reduce_value]
      cases reduce terms <;> rfl
    exact group.trans alone

/-- The tokens of `2 , ()`. -/
def strayGroup : List Token :=
  [.number 2, .operator .comma, .operator .leftParen, .operator .rightParen]

/-- An empty group is found behind a comma that is out of place, in parentheses or not. -/
theorem evaluate_strayGroup :
    strayGroup ≠ [] ∧ Balanced strayGroup ∧
      ∀ ctx, evaluate (grouped strayGroup) ctx = .error (.malformed .emptyGroup) := by
  have closed : isClosed Token.never 0 strayGroup = true := rfl
  have full : strayGroup ≠ [] := List.cons_ne_nil _ _
  refine ⟨full, balanced_of_isClosed closed, fun ctx => ?_⟩
  have behind : resolve evaluate ctx [.operator .comma, .operator .leftParen, .operator .rightParen] = _ :=
    resolve_operators [.comma, .leftParen, .rightParen]
  rw [evaluate_grouped full (balanced_of_isClosed closed), evaluate_eq, evaluateLevel, strayGroup,
    resolve_of_plain rfl, behind]
  rfl

end RecordFormula
