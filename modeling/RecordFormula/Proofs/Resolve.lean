import RecordFormula.Evaluation
import RecordFormula.Proofs.Calls
import RecordFormula.Proofs.Failure

/-!
# Rows of an evaluation

The two passes of an evaluation go through a list from the left. This module says what each does at a
token, and that what it makes of a beginning of the list does not depend on what comes behind.

Results:
1. `resolve_induction`: what holds at each token and behind each call holds of the list.
2. `resolve_append`: a closed list is resolved by itself.
3. `reduceFrom_append`: what is behind a row with a value goes on with the row that the value is of.
-/

namespace RecordFormula

open CallsLemmas NestingLemmas

section Resolve

variable {eval : Evaluator} {ctx : Context} {t : Token} {ts : List Token}

/-- A call with as many arguments as its function takes is worth what the function makes of them. -/
theorem evaluateCall_of_accepts {call : Call} {spec : FunctionSpec}
    (known : Catalog.standard.find? call.name = some spec)
    (fits : spec.arity.accepts call.args.length = true) :
    evaluateCall eval call ctx = spec.builtin.run eval call.args ctx := by
  rw [evaluateCall, known]
  show spec.checkArity call.args.length >>= _ = _
  rw [FunctionSpec.checkArity, fits]
  rfl

theorem resolve_of_call {call : Call} (starts : startsCall (t :: ts) = true)
    (found : Call.read (t :: ts) = .ok call) :
    resolve eval ctx (t :: ts) = (do
      let value ← evaluateCall eval call ctx
      let terms ← resolve eval ctx call.rest
      pure (.value value :: terms)) := by
  rw [resolve.eq_def]
  simp only [starts, if_true]
  split
  · rename_i failed
    rw [found] at failed
    exact absurd failed (by simp)
  · rename_i call' found'
    obtain rfl : call = call' := Except.ok.inj (found.symm.trans found')
    rfl

theorem resolve_of_unread {reason : ParseError} (starts : startsCall (t :: ts) = true)
    (failed : Call.read (t :: ts) = .error reason) :
    resolve eval ctx (t :: ts) = .error (.malformed reason) := by
  rw [resolve.eq_def]
  simp only [starts, if_true]
  split
  · rename_i reason' failed'
    rw [Except.error.inj (failed.symm.trans failed')]
  · rename_i found
    rw [failed] at found
    exact absurd found (by simp)

theorem resolve_of_plain (plain : startsCall (t :: ts) = false) :
    resolve eval ctx (t :: ts) = (do
      let term ← termOf ctx t
      let terms ← resolve eval ctx ts
      pure (term :: terms)) := by
  rw [resolve.eq_def]
  simp only [plain, Bool.false_eq_true, if_false]

/-- Induction along a list in the steps in which it is resolved: behind a call it goes on where the call has
ended. -/
@[elab_as_elim]
theorem resolve_induction {motive : List Token → Prop} (ts : List Token) (nil : motive [])
    (unread : ∀ (t : Token) (ts : List Token) (reason : ParseError), startsCall (t :: ts) = true →
      Call.read (t :: ts) = .error reason → motive (t :: ts))
    (call : ∀ (t : Token) (ts : List Token) (call : Call), startsCall (t :: ts) = true →
      Call.read (t :: ts) = .ok call → motive call.rest → motive (t :: ts))
    (plain : ∀ (t : Token) (ts : List Token), startsCall (t :: ts) = false → motive ts →
      motive (t :: ts)) : motive ts := by
  induction length : ts.length using Nat.strongRecOn generalizing ts with
  | ind n ih =>
    subst length
    cases ts with
    | nil => exact nil
    | cons t ts =>
      cases starts : startsCall (t :: ts) with
      | false => exact plain t ts starts (ih _ (Nat.lt_succ_self _) ts rfl)
      | true =>
        cases found : Call.read (t :: ts) with
        | error reason => exact unread t ts reason starts found
        | ok first => exact call t ts first starts found (ih _ (Call.rest_lt found) _ rfl)

theorem resolve_operators_append (ops : List Operator) :
    resolve eval ctx (ops.map .operator ++ ts) =
      (resolve eval ctx ts).map (ops.map .operator ++ ·) := by
  induction ops with
  | nil =>
    show resolve eval ctx ts = _
    cases resolve eval ctx ts <;> rfl
  | cons op ops ih =>
    rw [List.map_cons, List.cons_append, resolve_of_plain startsCall_operator, ih]
    cases resolve eval ctx ts <;> rfl

theorem resolve_operators (ops : List Operator) :
    resolve eval ctx (ops.map .operator) = .ok (ops.map .operator) := by
  have alone : resolve eval ctx (ops.map .operator ++ []) = _ := resolve_operators_append ops
  rw [List.append_nil, resolve] at alone
  rw [alone, Except.map, List.append_nil]

/-- A closed list is resolved by itself, whatever is behind it. -/
theorem resolve_append {stop : Token → Bool} {depth : Nat} {front back : List Token}
    (closed : isClosed stop depth front = true)
    (next : back.head? ≠ some (.operator .leftParen)) :
    resolve eval ctx (front ++ back) = (do
      let terms ← resolve eval ctx front
      let more ← resolve eval ctx back
      pure (terms ++ more)) := by
  induction front using resolve_induction generalizing depth with
  | nil =>
    rw [List.nil_append, resolve]
    cases resolve eval ctx back <;> rfl
  | unread t ts reason isCall failed =>
    obtain ⟨call, found, -⟩ := exists_call isCall closed
    exact absurd (failed.symm.trans found) (by simp)
  | call t ts call isCall found ih =>
    obtain ⟨read, alsoFound, rest⟩ := exists_call isCall closed
    obtain rfl : call = read := Except.ok.inj (found.symm.trans alsoFound)
    have starts : startsCall (t :: (ts ++ back)) = true :=
      (startsCall_append (List.cons_ne_nil t ts) next).trans isCall
    have longer : Call.read (t :: (ts ++ back)) = .ok { call with rest := call.rest ++ back } :=
      read_append isCall found
    have same : evaluateCall eval { call with rest := call.rest ++ back } ctx =
      evaluateCall eval call ctx := rfl
    rw [List.cons_append, resolve_of_call starts longer, resolve_of_call isCall found, same, ih rest]
    cases evaluateCall eval call ctx with
    | error reason => rfl
    | ok value => cases resolve eval ctx call.rest <;> cases resolve eval ctx back <;> rfl
  | plain t ts isPlain ih =>
    have starts : startsCall (t :: (ts ++ back)) = false :=
      (startsCall_append (List.cons_ne_nil t ts) next).trans isPlain
    have behind : resolve eval ctx (ts ++ back) = (do
        let terms ← resolve eval ctx ts
        let more ← resolve eval ctx back
        pure (terms ++ more)) := by
      rcases t.paren_cases with rfl | rfl | plain
      · exact ih (show isClosed stop (depth + 1) ts = true from closed)
      · obtain ⟨depth, rfl, tail⟩ := isClosed_rightParen.mp closed
        exact ih tail
      · exact ih ((isClosed_cons plain).mp closed).2
    rw [List.cons_append, resolve_of_plain starts, resolve_of_plain isPlain, behind]
    cases termOf ctx t with
    | error reason => rfl
    | ok term => cases resolve eval ctx ts <;> cases resolve eval ctx back <;> rfl

end Resolve

/-! ## Rows with parentheses -/

namespace ResolveLemmas

variable {outer : List (List Term)} {row terms : List Term}

/-- A term that is no parenthesis joins the row. -/
def Plain (t : Term) : Prop := t ≠ .operator .leftParen ∧ t ≠ .operator .rightParen

theorem reduceFrom_leftParen :
    reduceFrom outer row (.operator .leftParen :: terms) = reduceFrom (row :: outer) [] terms := rfl

theorem reduceFrom_rightParen {before : List Term} (full : row ≠ []) :
    reduceFrom (before :: outer) row (.operator .rightParen :: terms) =
      reduceFlat row >>= fun value => reduceFrom outer (before ++ [.value value]) terms := by
  rw [reduceFrom, List.isEmpty_eq_false_iff.mpr full]
  rfl

theorem reduceFrom_rightParen_nil {before : List Term} :
    reduceFrom (before :: outer) [] (.operator .rightParen :: terms) =
      .error (.malformed .emptyGroup) := rfl

theorem reduceFrom_unopened :
    reduceFrom [] row (.operator .rightParen :: terms) =
      .error (.malformed .unbalancedParentheses) := rfl

theorem reduceFrom_cons {t : Term} (plain : Plain t) :
    reduceFrom outer row (t :: terms) = reduceFrom outer (row ++ [t]) terms := by
  cases t with
  | value v => rfl
  | operator op =>
    cases op with
    | leftParen => exact absurd rfl plain.1
    | rightParen => exact absurd rfl plain.2
    | _ => rfl

theorem term_cases (t : Term) :
    t = .operator .leftParen ∨ t = .operator .rightParen ∨ Plain t := by
  by_cases left : t = .operator .leftParen
  · exact .inl left
  · by_cases right : t = .operator .rightParen
    · exact .inr (.inl right)
    · exact .inr (.inr ⟨left, right⟩)

theorem reduceFrom_plain_append {front back : List Term} (plain : ∀ t ∈ front, Plain t) :
    reduceFrom outer row (front ++ back) = reduceFrom outer (row ++ front) back := by
  induction front generalizing row with
  | nil => rw [List.nil_append, List.append_nil]
  | cons t front ih =>
    rw [List.cons_append, reduceFrom_cons (plain t List.mem_cons_self),
      ih fun other mem => plain other (List.mem_cons_of_mem _ mem), List.append_assoc,
      List.singleton_append]

theorem reduceFrom_plain {back : List Term} (plain : ∀ t ∈ back, Plain t) :
    reduceFrom outer row back = reduceFrom outer (row ++ back) [] := by
  rw [← reduceFrom_plain_append plain, List.append_nil]

end ResolveLemmas

open ResolveLemmas

/-- If a list of terms with plain terms at its end has a value, so has a row with them at its end. -/
theorem exists_row_of_reduceFrom {outer : List (List Term)} {row terms back : List Term}
    {value : Value} (plain : ∀ t ∈ back, Plain t)
    (reduced : reduceFrom outer row (terms ++ back) = .ok value) :
    ∃ last, reduceFlat (last ++ back) = .ok value := by
  induction terms generalizing outer row with
  | nil =>
    rw [List.nil_append, reduceFrom_plain plain, reduceFrom] at reduced
    split at reduced
    · exact ⟨row, reduced⟩
    · exact absurd reduced (by simp)
  | cons t terms ih =>
    rw [List.cons_append] at reduced
    rcases term_cases t with rfl | rfl | isPlain
    · exact ih reduced
    · cases outer with
      | nil => exact absurd reduced (by simp [reduceFrom_unopened])
      | cons before outer =>
        by_cases empty : row = []
        · subst empty
          exact absurd reduced (by simp [reduceFrom_rightParen_nil])
        · rw [reduceFrom_rightParen empty] at reduced
          obtain ⟨_, -, reduced⟩ := exists_of_bind_eq_ok reduced
          exact ih reduced
    · rw [reduceFrom_cons isPlain] at reduced
      exact ih reduced

/-- A row that has a value goes on, with more terms behind it, as the row that the value is of. -/
theorem reduceFrom_append {outer : List (List Term)} {row terms : List Term} {value : Value}
    (reduced : reduceFrom outer row terms = .ok value) :
    ∃ last, reduceFlat last = .ok value ∧
      ∀ back, reduceFrom outer row (terms ++ back) = reduceFrom [] last back := by
  induction terms generalizing outer row with
  | nil =>
    rw [reduceFrom] at reduced
    split at reduced
    · rename_i empty
      obtain rfl := List.isEmpty_iff.mp empty
      exact ⟨row, reduced, fun back => rfl⟩
    · exact absurd reduced (by simp)
  | cons t terms ih =>
    rcases term_cases t with rfl | rfl | plain
    · exact ih reduced
    · cases outer with
      | nil => exact absurd reduced (by simp [reduceFrom_unopened])
      | cons before outer =>
        by_cases empty : row = []
        · subst empty
          exact absurd reduced (by simp [reduceFrom_rightParen_nil])
        · rw [reduceFrom_rightParen empty] at reduced
          obtain ⟨v, group, reduced⟩ := exists_of_bind_eq_ok reduced
          obtain ⟨last, found, same⟩ := ih reduced
          refine ⟨last, found, fun back => ?_⟩
          rw [List.cons_append, reduceFrom_rightParen empty, group]
          exact same back
    · rw [reduceFrom_cons plain] at reduced
      obtain ⟨last, found, same⟩ := ih reduced
      refine ⟨last, found, fun back => ?_⟩
      rw [List.cons_append, reduceFrom_cons plain]
      exact same back

end RecordFormula
