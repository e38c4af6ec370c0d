import LispFront.Proofs.Parse.Derivation
import LispFront.Proofs.Parse.Ending
import LispFront.Proofs.Token.Tokenization

/-! # Acceptance

A text is read without a diagnostic if it is the written form of a valid program, and only
then; the program is the one that is read (`Reading.valid_of_silent`,
`Reading.ofWords_of_writtenAs`). -/

namespace LispFront

namespace State

theorem readAll_append_of_silent {state middle : State} {first : List Token}
    (second : List Token) (silent : state.readAll first = (middle, [])) :
    state.readAll (first ++ second) = middle.readAll second := by
  rw [readAll_append, silent, List.nil_append]

theorem readAll_cons_of_silent {state middle : State} {word : Token} (words : List Token)
    (silent : state.step word = (middle, [])) :
    state.readAll (word :: words) = middle.readAll words := by
  rw [readAll_cons, silent, List.nil_append]

variable {finished : Array Expression} {frames : List Frame}

private theorem readAll_closing {state : State} {form : Form} {opening closing : Token}
    {items : Array Expression} {words : List Token} (read : state.readAll words =
      (⟨finished, .sequence form opening items :: frames, .expression⟩, []))
    (closes : form.closingMark.Fits closing) :
    state.readAll (words ++ [closing]) =
      deliver finished opening (some (form.build opening items.toList)) frames := by
  have kind : closing.kind = form.closing := by
    cases form <;> exact closes.1
  rw [readAll_append_of_silent [closing] read, readAll_singleton, step_closing kind]

private theorem step_keyword {opening token : Token} (fits : Mark.keyword.Fits token) :
    step ⟨finished, frames, .head opening⟩ token =
      (⟨finished, frames, .name opening⟩, []) :=
  readHead_keyword fits

private theorem step_head {opening token : Token} (heads : token.HeadsCall) :
    step ⟨finished, frames, .head opening⟩ token =
      (⟨finished, .sequence (.call token) opening #[] :: frames, .expression⟩, []) := by
  apply readHead_called
  · rintro ⟨named, keyword⟩
    rcases heads with operator | other
    · simp [Token.isOperator, TokenKind.isOperator, named] at operator
    · exact other.2 keyword
  · exact heads.elim .inr fun named => .inl named.1

private theorem step_name {opening token : Token} (names : token.NamesFunction) :
    step ⟨finished, frames, .name opening⟩ token =
      (⟨finished, .declaration opening token :: frames, .expression⟩, []) :=
  readName_accepted (by simp [names.2])

theorem ofToken_of_valid {identifier : Identifier} (valid : identifier.Valid) :
    Identifier.ofToken identifier.token = identifier := by
  rw [Identifier.ofToken, ← valid.2]

private theorem readAll_identifiers (finished : Array Expression) (frames : List Frame)
    (form : Form) (opening : Token) (items : Array Expression)
    {identifiers : List Identifier} (valid : ∀ identifier ∈ identifiers, identifier.Valid)
    {words : List Token}
    (fits : List.Forall₂ Mark.Fits (identifiers.map Identifier.mark) words) :
    readAll ⟨finished, .sequence form opening items :: frames, .expression⟩ words =
      (⟨finished,
        .sequence form opening (items ++ identifiers.map Expression.identifier) :: frames,
        .expression⟩, []) := by
  induction identifiers generalizing items words with
  | nil =>
      cases fits
      simp [readAll]
  | cons identifier rest induction =>
      rcases fits with _ | ⟨rfl, fits⟩
      rcases List.forall_mem_cons.mp valid with ⟨first, restValid⟩
      have later := induction (items.push (.identifier identifier)) restValid fits
      have stepped : step ⟨finished, .sequence form opening items :: frames, .expression⟩
            identifier.token =
          (⟨finished,
            .sequence form opening (items.push (.identifier identifier)) :: frames,
            .expression⟩, []) := by
        rw [step_identifier first.1, ofToken_of_valid first, deliver]
      rw [readAll_cons_of_silent _ stepped, later]
      simp

theorem deliver_parameters (bracket opening name : Token) (parameters : List Identifier) :
    deliver finished bracket
        (some (.array bracket (parameters.map Expression.identifier)))
        (.declaration opening name :: frames) =
      (⟨finished, .sequence (.body name parameters) opening #[] :: frames, .expression⟩,
        []) := by
  have names : (parameters.map Expression.identifier).filterMap Expression.asIdentifier? =
      parameters := by
    rw [List.filterMap_map]
    exact List.filterMap_some
  have silent :
      (parameters.map Expression.identifier).filterMap parameterProblem? = [] := by
    rw [List.filterMap_map]
    exact List.filterMap_eq_nil_iff.mpr fun _ _ => rfl
  simp only [deliver, names, silent]

private theorem readAll_parameters {bracket opening name closing : Token}
    {parameters : List Identifier} (valid : ∀ parameter ∈ parameters, parameter.Valid)
    {words : List Token}
    (fits : List.Forall₂ Mark.Fits (parameters.map Identifier.mark) words)
    (closes : Mark.rightSquare.Fits closing) :
    readAll
        ⟨finished, .sequence .array bracket #[] :: .declaration opening name :: frames,
          .expression⟩ (words ++ [closing]) =
      (⟨finished, .sequence (.body name parameters) opening #[] :: frames, .expression⟩,
        []) := by
  have inside :=
    readAll_identifiers finished (.declaration opening name :: frames) .array bracket #[]
    valid fits
  rw [readAll_closing inside closes]
  simpa [Form.build] using deliver_parameters bracket opening name parameters

mutual

/-- Reading a written tree hands the tree to whatever is open. -/
theorem readAll_expression (finished : Array Expression) (frames : List Frame)
    (expression : Expression) {words : List Token} (valid : expression.Valid)
    (fits : List.Forall₂ Mark.Fits expression.marks words) :
    readAll ⟨finished, frames, .expression⟩ words =
      deliver finished expression.token (some expression) frames := by
  cases expression with
  | number token value =>
      simp only [Expression.Valid, Expression.marks] at valid fits
      rcases fits with _ | ⟨rfl, _ | _⟩
      rw [readAll_singleton, step_number valid.1, ← valid.2]
      rfl
  | string token value =>
      simp only [Expression.Valid, Expression.marks] at valid fits
      rcases fits with _ | ⟨rfl, _ | _⟩
      rw [readAll_singleton, step_string valid.1, ← valid.2]
      rfl
  | identifier name =>
      simp only [Expression.Valid, Expression.marks] at valid fits
      rcases fits with _ | ⟨rfl, _ | _⟩
      rw [readAll_singleton, step_identifier valid.1, ofToken_of_valid valid]
      rfl
  | array opening elements =>
      simp only [Expression.Valid, Expression.marks] at valid fits
      rcases valid with ⟨opens, allValid⟩
      rcases fits with _ | ⟨rfl, fits⟩
      rcases Mark.exists_append_of_fits fits with
        ⟨inner, _, rfl, fitsInner, _ | ⟨fitsEnd, _ | _⟩⟩
      have read :=
        readAll_expressions finished .array opening #[] frames elements allValid fitsInner
      rw [readAll_cons_of_silent _ (step_leftSquare opens), readAll_closing read fitsEnd]
      simp [Form.build, Expression.token]
  | call opening function arguments =>
      simp only [Expression.Valid, Expression.marks] at valid fits
      rcases valid with ⟨opens, heads, allValid⟩
      rcases fits with _ | ⟨rfl, _ | ⟨rfl, fits⟩⟩
      rcases Mark.exists_append_of_fits fits with
        ⟨inner, _, rfl, fitsInner, _ | ⟨fitsEnd, _ | _⟩⟩
      have read :=
        readAll_expressions finished (.call function) opening #[] frames
          arguments allValid
        fitsInner
      rw [readAll_cons_of_silent _ (step_leftRound opens),
        readAll_cons_of_silent _ (step_head heads), readAll_closing read fitsEnd]
      simp [Form.build, Expression.token]
  | function opening name parameters body =>
      simp only [Expression.Valid, Expression.marks] at valid fits
      rcases valid with ⟨opens, names, parametersValid, allValid⟩
      rcases fits with _ | ⟨rfl, _ | ⟨fitsKeyword, _ | ⟨rfl, _ | ⟨fitsBracket, fits⟩⟩⟩⟩
      rcases Mark.exists_append_of_fits fits with
        ⟨inner, _, rfl, fitsInner, _ | ⟨fitsEnd, fitsRest⟩⟩
      rcases Mark.exists_append_of_fits fitsRest with
        ⟨later, _, rfl, fitsBody, _ | ⟨fitsLast, _ | _⟩⟩
      have read :=
        readAll_expressions finished (.body name parameters) opening #[]
          frames body allValid
        fitsBody
      rw [readAll_cons_of_silent _ (step_leftRound opens),
        readAll_cons_of_silent _ (step_keyword fitsKeyword),
        readAll_cons_of_silent _ (step_name names),
        readAll_cons_of_silent _ (step_leftSquare fitsBracket.1), List.append_cons,
        readAll_append_of_silent _ (readAll_parameters parametersValid fitsInner fitsEnd),
        readAll_closing read fitsLast]
      simp [Form.build, Expression.token]

theorem readAll_expressions (finished : Array Expression) (form : Form) (opening : Token)
    (items : Array Expression) (frames : List Frame) (expressions : List Expression)
    {words : List Token} (allValid : AllValid expressions)
    (fits : List.Forall₂ Mark.Fits (marksAll expressions) words) :
    readAll ⟨finished, .sequence form opening items :: frames, .expression⟩ words =
      (⟨finished, .sequence form opening (items ++ expressions) :: frames, .expression⟩,
        []) := by
  cases expressions with
  | nil =>
      cases fits
      simp [readAll]
  | cons expression rest =>
      rcases Mark.exists_append_of_fits fits with
        ⟨before, after, rfl, fitsFirst, fitsRest⟩
      have first :=
        readAll_expression finished (.sequence form opening items :: frames) expression
        allValid.1 fitsFirst
      have later :=
        readAll_expressions finished form opening (items.push expression) frames rest
        allValid.2 fitsRest
      rw [readAll_append_of_silent after first, later]
      simp

end

private theorem readAll_program (finished : Array Expression)
    {expressions : List Expression} {words : List Token} (allValid : AllValid expressions)
    (fits : List.Forall₂ Mark.Fits (marksAll expressions) words) :
    readAll ⟨finished, [], .expression⟩ words =
      (⟨finished ++ expressions, [], .expression⟩, []) := by
  induction expressions generalizing finished words with
  | nil =>
      cases fits
      simp [readAll]
  | cons expression rest induction =>
      rcases Mark.exists_append_of_fits fits with
        ⟨before, after, rfl, fitsFirst, fitsRest⟩
      have first := readAll_expression finished [] expression allValid.1 fitsFirst
      have later := induction (finished.push expression) allValid.2 fitsRest
      rw [readAll_append_of_silent after first, later]
      simp

end State

namespace Reading

theorem flawless_eq_ok {reading : Reading} {program : Program} :
    reading.flawless = .ok program ↔
      reading.diagnostics = [] ∧ reading.program = program := by
  by_cases silent : reading.diagnostics = []
  · simp [flawless, silent]
  · simp [flawless, silent]

/-- What is read without a diagnostic is valid, and the text is its written form. -/
theorem valid_of_silent {words : List Token} {position : Position}
    (spelled : ∀ word ∈ words, word.IsSpelled)
    (words_ne : ∀ word ∈ words, word.kind ≠ .endOfInput)
    (silent : (ofWords words position).diagnostics = []) :
    (ofWords words position).program.Valid ∧
      (ofWords words position).program.WrittenAs words := by
  have silentWords := (List.append_eq_nil_iff.mp silent).1
  have idle : (State.initial.readAll words).1.isIdle = true := by
    apply (isIdle_iff_forall_meetsEnd position words_ne).mpr
    simp [silent]
  have start : State.initial.Derives [] :=
    ⟨⟨trivial, fun _ member => (List.not_mem_nil member).elim,
      fun _ member => (List.not_mem_nil member).elim, .nil⟩, trivial⟩
  have derives := State.derives_readAll start spelled words_ne silentWords
  have fits := derives.derived.fits
  rw [State.eq_of_isIdle idle] at fits
  simp only [Frame.marksAll, Mode.marks, List.append_nil, List.nil_append] at fits
  simp only [ofWords, State.close_of_isIdle position idle]
  exact ⟨derives.derived.finishedValid, fits⟩

/-- A valid program is read from its written form, without a diagnostic. -/
theorem ofWords_of_writtenAs {words : List Token} {program : Program}
    (position : Position) (valid : program.Valid) (written : program.WrittenAs words) :
    ofWords words position = ⟨program, []⟩ := by
  have read := State.readAll_program #[] valid written
  rw [ofWords, State.initial, read, State.close_of_isIdle position rfl]
  simp

/-- A text is read without a diagnostic as the one valid program that it is the written
form of. -/
theorem flawless_ofText_iff (source : String) :
    (∀ program, (ofText source).flawless = .ok program ↔
      program.Valid ∧ program.WrittenAs (Cursor.ofString source).words) ∧
    ((∃ failure, (ofText source).flawless = .error failure) ↔
      ∀ program : Program,
        ¬(program.Valid ∧ program.WrittenAs (Cursor.ofString source).words)) := by
  have accepts (program : Program) : (ofText source).flawless = .ok program ↔
      program.Valid ∧ program.WrittenAs (Cursor.ofString source).words := by
    rw [flawless_eq_ok, ofText_eq_ofWords]
    constructor
    · rintro ⟨silent, rfl⟩
      exact valid_of_silent (fun _ => Cursor.isSpelled_of_mem_words)
        (fun _ => Cursor.kind_ne_endOfInput_of_mem_words) silent
    · rintro ⟨valid, written⟩
      rw [ofWords_of_writtenAs _ valid written]
      exact ⟨rfl, rfl⟩
  refine ⟨accepts, ?_⟩
  constructor
  · rintro ⟨failure, fails⟩ program derivation
    rw [(accepts program).mpr derivation] at fails
    cases fails
  · intro none
    cases outcome : (ofText source).flawless with
    | ok program => exact (none program ((accepts program).mp outcome)).elim
    | error failure => exact ⟨failure, rfl⟩

end Reading

end LispFront
