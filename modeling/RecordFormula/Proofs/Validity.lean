import RecordFormula.Validation

/-!
# Reading and validation

Reading stops at the first fault of an expression, a validation goes on to the last. `FirstFault` says
at which stage the one stops and `IsRead` what it has found out otherwise; `Usable` is what a validation
asks of a formula beyond that.

Results:
1. `parse_eq_error_iff` and `parse_eq_ok_iff`: what reading finds out.
2. `isValid_iff`: an expression is valid if it is read and the formula is usable.
3. `validate_agrees_with_parse`: what is valid is read, and a validation starts with the fault at which
   reading stops.
-/

namespace RecordFormula

/-- The fault at which the reading of an expression stops. -/
inductive FirstFault (limits : Limits) (expression : String) : FormulaError → Prop where
  | blank (isBlank : isBlankText expression = true) : FirstFault limits expression (.parse .empty)
  | screen {reason : ScreenError} {more : List ScreenError}
      (isText : isBlankText expression = false)
      (refused : screenErrors limits expression = reason :: more) :
      FirstFault limits expression (.screen reason)
  | token {reason : ParseError}
      (isText : isBlankText expression = false)
      (passed : screenErrors limits expression = [])
      (unread : tokenize expression = .error reason) :
      FirstFault limits expression (.parse reason)
  | structure {tokens : List Token} {reason : ParseError} {more : List ParseError}
      (isText : isBlankText expression = false)
      (passed : screenErrors limits expression = [])
      (read : tokenize expression = .ok tokens)
      (malformed : structuralErrors tokens = reason :: more) :
      FirstFault limits expression (.parse reason)

/-- What is known of the formula that an expression was read as. -/
structure IsRead (limits : Limits) (expression : String) (formula : Formula) : Prop where
  isText : isBlankText expression = false
  passed : screenErrors limits expression = []
  read : tokenize expression = .ok formula.tokens
  wellFormed : structuralErrors formula.tokens = []
  written : formula.expression = expression

/-- What a validation asks of a formula that was read. -/
structure Usable (limits : Limits) (schema : Option Schema) (formula : Formula) : Prop where
  known : ∀ declared, schema = some declared →
    ∀ name ∈ formula.fields, declared.contains name = true
  fewTokens : formula.tokens.length ≤ limits.maxTokens
  fewFields : formula.fields.length ≤ limits.maxFields
  calls : ∀ site ∈ formula.calls, callProblems site = []

namespace ValidityLemmas

variable {limits : Limits} {schema : Option Schema} {expression : String} {tokens : List Token}
  {formula : Formula} {error : FormulaError}

/-! ## Reading -/

theorem screen_eq_ok (passed : screenErrors limits expression = []) :
    screen limits expression = .ok () := by
  rw [screen, passed]

theorem screen_eq_error {reason : ScreenError} {more : List ScreenError}
    (refused : screenErrors limits expression = reason :: more) :
    screen limits expression = .error reason := by
  rw [screen, refused]

theorem firstFault_or_isRead (limits : Limits) (expression : String) :
    (∃ error, FirstFault limits expression error) ∨ ∃ formula, IsRead limits expression formula := by
  cases isText : isBlankText expression with
  | true => exact .inl ⟨_, .blank isText⟩
  | false =>
    cases screened : screenErrors limits expression with
    | cons reason more => exact .inl ⟨_, .screen isText screened⟩
    | nil =>
      cases read : tokenize expression with
      | error reason => exact .inl ⟨_, .token isText screened read⟩
      | ok tokens =>
        cases checked : structuralErrors tokens with
        | cons reason more => exact .inl ⟨_, .structure isText screened read checked⟩
        | nil => exact .inr ⟨{ expression, tokens }, isText, screened, read, checked, rfl⟩

theorem parse_of_firstFault (fault : FirstFault limits expression error) :
    parse limits expression = .error error := by
  rw [parse]
  cases fault with
  | blank isBlank => rw [if_pos isBlank]
  | screen isText refused =>
    rw [isText, screen_eq_error refused]
    rfl
  | token isText passed unread =>
    rw [isText, screen_eq_ok passed, unread]
    rfl
  | «structure» isText passed read malformed =>
    rw [isText, screen_eq_ok passed, read]
    dsimp only
    rw [malformed]
    rfl

theorem parse_of_isRead (isRead : IsRead limits expression formula) :
    parse limits expression = .ok formula := by
  obtain ⟨isText, passed, read, wellFormed, rfl⟩ := isRead
  rw [parse, isText, screen_eq_ok passed, read]
  dsimp only
  rw [wellFormed]
  rfl

/-- Limits decide whether an expression is read, but not as what. -/
theorem eq_of_isRead {other : Limits} {formula' : Formula} (isRead : IsRead limits expression formula)
    (isRead' : IsRead other expression formula') : formula = formula' := by
  have tokens := Except.ok.inj (isRead.read.symm.trans isRead'.read)
  have written := isRead.written.trans isRead'.written.symm
  cases formula
  cases formula'
  simp_all

end ValidityLemmas

open ValidityLemmas

/-- An expression that cannot be read fails with its first fault. -/
theorem parse_eq_error_iff {limits : Limits} {expression : String} {error : FormulaError} :
    parse limits expression = .error error ↔ FirstFault limits expression error := by
  refine ⟨fun failed => ?_, parse_of_firstFault⟩
  rcases firstFault_or_isRead limits expression with ⟨error', fault⟩ | ⟨formula, isRead⟩
  · obtain rfl := Except.error.inj (failed.symm.trans (parse_of_firstFault fault))
    exact fault
  · exact absurd (failed.symm.trans (parse_of_isRead isRead)) (by simp)

/-- An expression is read as its tokens, and only without a fault. -/
theorem parse_eq_ok_iff {limits : Limits} {expression : String} {formula : Formula} :
    parse limits expression = .ok formula ↔ IsRead limits expression formula := by
  refine ⟨fun parsed => ?_, parse_of_isRead⟩
  rcases firstFault_or_isRead limits expression with ⟨error, fault⟩ | ⟨formula', isRead⟩
  · exact absurd (parsed.symm.trans (parse_of_firstFault fault)) (by simp)
  · obtain rfl := Except.ok.inj (parsed.symm.trans (parse_of_isRead isRead))
    exact isRead

/-! ## Validation -/

namespace ValidityLemmas

variable {limits : Limits} {schema : Option Schema} {expression : String} {tokens : List Token}
  {formula : Formula} {error : FormulaError}

/-- The parentheses of an expression that passes the screen balance, so its structure is checked. -/
theorem isSome_nestingDepth (passed : screenErrors limits expression = []) :
    (nestingDepth expression).isSome = true := by
  have nesting : nestingErrors limits expression = [] := (List.append_eq_nil_iff.mp passed).2
  rw [nestingErrors] at nesting
  cases found : nestingDepth expression with
  | some depth => rfl
  | none => simp [found] at nesting

theorem problems_of_blank (isBlank : isBlankText expression = true) :
    (validate limits schema expression).problems = [.parse .empty] := by
  rw [validate, if_pos isBlank]

theorem problems_of_unread {reason : ParseError} (isText : isBlankText expression = false)
    (unread : tokenize expression = .error reason) :
    (validate limits schema expression).problems =
      (screenErrors limits expression).map .screen ++ [.parse reason] := by
  rw [validate, if_neg (by simp [isText]), unread]

theorem problems_of_read (isText : isBlankText expression = false)
    (read : tokenize expression = .ok tokens) :
    (validate limits schema expression).problems =
      (screenErrors limits expression).map .screen ++
        (reportTokens limits schema (nestingDepth expression) tokens).problems := by
  rw [validate, if_neg (by simp [isText]), read]

/-- Whatever else is wrong, the report starts with what the screen found. -/
theorem problems_of_text (isText : isBlankText expression = false) :
    ∃ more, (validate limits schema expression).problems =
      (screenErrors limits expression).map .screen ++ more := by
  cases read : tokenize expression with
  | error reason => exact ⟨_, problems_of_unread isText read⟩
  | ok tokens => exact ⟨_, problems_of_read isText read⟩

theorem head_problems (schema : Option Schema) (fault : FirstFault limits expression error) :
    (∃ reason, error = .screen reason ∧
      (validate limits schema expression).problems.head? = some (.screen reason)) ∨
    ∃ reason, error = .parse reason ∧
      (validate limits schema expression).problems.head? = some (.parse reason) := by
  cases fault with
  | blank isBlank =>
    refine .inr ⟨_, rfl, ?_⟩
    rw [problems_of_blank isBlank]
    rfl
  | screen isText refused =>
    obtain ⟨more, problems⟩ := @problems_of_text limits schema expression isText
    refine .inl ⟨_, rfl, ?_⟩
    rw [problems, refused]
    rfl
  | token isText passed unread =>
    refine .inr ⟨_, rfl, ?_⟩
    rw [problems_of_unread isText unread, passed]
    rfl
  | «structure» isText passed read malformed =>
    refine .inr ⟨_, rfl, ?_⟩
    rw [problems_of_read isText read, passed, reportTokens, isSome_nestingDepth passed, malformed]
    rfl

theorem unknownFields_eq_nil_iff {declared : Schema} {fields : List String} :
    unknownFields declared fields = [] ↔ ∀ name ∈ fields, declared.contains name = true := by
  have sorted (name : String) : name ∈ Text.sort fields ↔ name ∈ fields :=
    (Text.sortOn_perm id fields).mem_iff
  rw [unknownFields, List.map_eq_nil_iff, List.filter_eq_nil_iff]
  simp only [sorted, Bool.not_eq_true', Bool.not_eq_false]

theorem sizeProblems_eq_nil_iff {tokens fields : Nat} :
    sizeProblems limits tokens fields = [] ↔ tokens ≤ limits.maxTokens ∧ fields ≤ limits.maxFields := by
  rw [sizeProblems, List.append_eq_nil_iff]
  refine and_congr ?_ ?_ <;> split <;> simp <;> omega

theorem reportTokens_eq_nil_iff {depth : Option Nat} (balanced : depth.isSome = true) :
    (reportTokens limits schema depth formula.tokens).problems = [] ↔
      structuralErrors formula.tokens = [] ∧ Usable limits schema formula := by
  have unknown : (schema.map (unknownFields · formula.fields)).getD [] = [] ↔
      ∀ declared, schema = some declared → ∀ name ∈ formula.fields, declared.contains name = true := by
    cases schema with
    | none => simp
    | some declared => simp [unknownFields_eq_nil_iff]
  simp only [reportTokens, balanced, if_true, List.append_eq_nil_iff, List.map_eq_nil_iff]
  rw [sizeProblems_eq_nil_iff, List.flatMap_eq_nil_iff]
  constructor
  · rintro ⟨⟨⟨wellFormed, known⟩, fewTokens, fewFields⟩, calls⟩
    exact ⟨wellFormed, unknown.mp known, fewTokens, fewFields, calls⟩
  · rintro ⟨wellFormed, known, fewTokens, fewFields, calls⟩
    exact ⟨⟨⟨wellFormed, unknown.mpr known⟩, fewTokens, fewFields⟩, calls⟩

theorem isValid_of_isRead (isRead : IsRead limits expression formula) :
    (validate limits schema expression).isValid = true ↔ Usable limits schema formula := by
  obtain ⟨isText, passed, read, wellFormed, -⟩ := isRead
  rw [Report.isValid, List.isEmpty_iff, problems_of_read isText read, passed, List.map_nil,
    List.nil_append, reportTokens_eq_nil_iff (isSome_nestingDepth passed)]
  exact ⟨fun both => both.2, fun usable => ⟨wellFormed, usable⟩⟩

theorem not_isValid_of_firstFault (schema : Option Schema) (fault : FirstFault limits expression error) :
    (validate limits schema expression).isValid = false := by
  rw [Report.isValid, List.isEmpty_eq_false_iff]
  intro none
  rcases head_problems schema fault with ⟨reason, -, head⟩ | ⟨reason, -, head⟩ <;>
    exact absurd head (by simp [none])

theorem head_errors {problem : Problem}
    (head : (validate limits schema expression).problems.head? = some problem) :
    (validate limits schema expression).errors.head? = some problem.message := by
  rw [Report.errors, List.head?_map, head]
  rfl

end ValidityLemmas

/-- An expression is valid if it can be read and its formula used. -/
theorem isValid_iff {limits : Limits} {schema : Option Schema} {expression : String} :
    (validate limits schema expression).isValid = true ↔
      ∃ formula, parse limits expression = .ok formula ∧ Usable limits schema formula := by
  constructor
  · intro valid
    rcases firstFault_or_isRead limits expression with ⟨error, fault⟩ | ⟨formula, isRead⟩
    · have invalid := not_isValid_of_firstFault schema fault
      exact absurd (valid.symm.trans invalid) (by simp)
    · exact ⟨formula, parse_of_isRead isRead, (isValid_of_isRead isRead).mp valid⟩
  · rintro ⟨formula, parsed, usable⟩
    exact (isValid_of_isRead (parse_eq_ok_iff.mp parsed)).mpr usable

/-- Under which limits a valid expression was read does not matter for what is known of the formula. -/
theorem usable_of_isValid {limits other : Limits} {schema : Option Schema} {expression : String}
    {formula : Formula} (valid : (validate limits schema expression).isValid = true)
    (parsed : parse other expression = .ok formula) : Usable limits schema formula := by
  obtain ⟨formula', parsed', usable⟩ := isValid_iff.mp valid
  rwa [eq_of_isRead (parse_eq_ok_iff.mp parsed) (parse_eq_ok_iff.mp parsed')]

/-- Whatever is valid can be read. What cannot be read is not valid, and the first error of the report
has the wording of the fault at which reading stops. -/
theorem validate_agrees_with_parse (limits : Limits) (schema : Option Schema) (expression : String) :
    ((validate limits schema expression).isValid = true →
      ∃ formula, parse limits expression = .ok formula) ∧
    ∀ error, parse limits expression = .error error →
      (validate limits schema expression).isValid = false ∧
      ((∃ reason, error = .screen reason ∧
        (validate limits schema expression).errors.head? = some reason.message) ∨
       ∃ reason, error = .parse reason ∧
        (validate limits schema expression).errors.head? = some reason.message) := by
  constructor
  · intro valid
    obtain ⟨formula, parsed, -⟩ := isValid_iff.mp valid
    exact ⟨formula, parsed⟩
  · intro error failed
    have fault := parse_eq_error_iff.mp failed
    refine ⟨not_isValid_of_firstFault schema fault, ?_⟩
    rcases head_problems schema fault with ⟨reason, same, head⟩ | ⟨reason, same, head⟩
    · exact .inl ⟨reason, same, head_errors head⟩
    · exact .inr ⟨reason, same, head_errors head⟩

/-- The report on a call of an unknown function with an operator behind it starts with the operator,
where reading stops. Without the operator the call can be read, and with a known function it is valid. -/
theorem unfinishedCall_reported_first :
    (∃ formula, parse {} "SUM(amount)" = .ok formula) ∧
      parse {} "TOTAL(amount) +" = .error (.parse (.incomplete (.lastOperandAfter .plus))) ∧
      (validate {} none "TOTAL(amount) +").isValid = false ∧
      (validate {} none "TOTAL(amount) +").errors.head? =
        some "Incomplete expression: expression ends with '+'" := by
  have valid : (validate {} none "SUM(amount)").isValid = true := by with_unfolding_all rfl
  have failed : parse {} "TOTAL(amount) +" =
      .error (.parse (.incomplete (.lastOperandAfter .plus))) := by
    with_unfolding_all rfl
  obtain ⟨invalid, first⟩ := (validate_agrees_with_parse {} none "TOTAL(amount) +").2 _ failed
  refine ⟨(validate_agrees_with_parse {} none "SUM(amount)").1 valid, failed, invalid, ?_⟩
  rcases first with ⟨reason, same, -⟩ | ⟨reason, same, head⟩
  · exact absurd same (by simp)
  · obtain rfl := FormulaError.parse.inj same
    exact head

end RecordFormula
