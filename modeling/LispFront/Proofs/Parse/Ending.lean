import LispFront.Proofs.Parse.Reading
import LispFront.Proofs.Parse.Step

/-! # Meeting the end

The end of the input is reported where something is still open, and nowhere else: no word
reports it, and of what is open at the end nothing goes unreported
(`isIdle_iff_forall_meetsEnd`). -/

namespace LispFront

/-- Whether a diagnostic reports that the input has ended too early. -/
def Diagnostic.meetsEnd : Diagnostic → Bool
  | unexpectedEnd .. => true
  | invalidFunctionName .endOfInput _ => true
  | _ => false

namespace State

variable {finished : Array Expression} {frames : List Frame} {token : Token}
  {diagnostic : Diagnostic}

/-! ## Words -/

theorem eq_of_parameterProblem? {element : Expression}
    (problem : parameterProblem? element = some diagnostic) :
    diagnostic = .expectedIdentifier element.render element.token.position := by
  cases element with
  | identifier name => cases problem
  | _ => exact (Option.some.inj problem).symm

theorem mem_deliver {first : Token} {result : Option Expression}
    (member : diagnostic ∈ (deliver finished first result frames).2) :
    diagnostic = .elementDropped first ∨
      (∃ found position, diagnostic = .expectedIdentifier found position) ∨
      ∃ found position, diagnostic = .expectedParameters found position := by
  rcases frames with _ | ⟨frame, frames⟩
  · cases result <;> cases member
  cases frame with
  | sequence form opening items =>
      cases result with
      | none => exact .inl (List.mem_singleton.mp member)
      | some expression => cases member
  | declaration opening name =>
      rcases result with _ | expression
      · exact .inr (.inr ⟨_, _, List.mem_singleton.mp member⟩)
      cases expression with
      | array bracket elements =>
          rcases List.mem_filterMap.mp member with ⟨element, _, problem⟩
          exact .inr (.inl ⟨_, _, eq_of_parameterProblem? problem⟩)
      | _ => exact .inr (.inr ⟨_, _, List.mem_singleton.mp member⟩)

theorem meetsEnd_deliver {first : Token} {result : Option Expression}
    (member : diagnostic ∈ (deliver finished first result frames).2) :
    diagnostic.meetsEnd = false := by
  rcases mem_deliver member with rfl | ⟨found, position, rfl⟩ | ⟨found, position, rfl⟩
  · rfl
  · rfl
  · rfl

private theorem meetsEnd_report {problem : Diagnostic} {outcome : State × List Diagnostic}
    (misses : problem.meetsEnd = false)
    (later : ∀ diagnostic ∈ outcome.2, diagnostic.meetsEnd = false)
    (member : diagnostic ∈ (report problem outcome).2) : diagnostic.meetsEnd = false := by
  rcases List.mem_cons.mp member with rfl | member
  · exact misses
  · exact later diagnostic member

private theorem meetsEnd_readExpression
    (member : diagnostic ∈ (readExpression finished frames token).2) :
    diagnostic.meetsEnd = false := by
  unfold readExpression at member
  split at member
  · exact meetsEnd_deliver member
  · exact meetsEnd_deliver member
  · exact meetsEnd_deliver member
  · cases member
  · cases member
  · exact meetsEnd_report rfl (fun _ => meetsEnd_deliver) member

private theorem meetsEnd_readPart
    (member : diagnostic ∈ (readPart finished token frames).2) :
    diagnostic.meetsEnd = false := by
  rcases frames with _ | ⟨frame, frames⟩
  · exact meetsEnd_readExpression member
  cases frame with
  | sequence form opening items =>
      by_cases closes : token.kind = form.closing
      · rw [readPart_closing closes] at member
        exact meetsEnd_deliver member
      · rw [readPart_item closes] at member
        exact meetsEnd_readExpression member
  | declaration opening name =>
      by_cases closes : token.kind = .rightRound
      · rw [readPart_missing closes] at member
        exact meetsEnd_report rfl (fun _ => meetsEnd_deliver) member
      · rw [readPart_parameters closes] at member
        exact meetsEnd_readExpression member

private theorem meetsEnd_passOver {opening : Token} {nested : Nat}
    (member : diagnostic ∈ (passOver finished frames opening nested token).2) :
    diagnostic.meetsEnd = false := by
  unfold passOver at member
  split at member
  · cases member
  · cases member
  · exact meetsEnd_deliver member
  · cases member

private theorem meetsEnd_rejectName {opening : Token} (more : token.kind ≠ .endOfInput)
    (member : diagnostic ∈ (rejectName finished frames opening token).2) :
    diagnostic.meetsEnd = false := by
  rw [rejectName_eq] at member
  apply meetsEnd_report _ (fun _ => meetsEnd_passOver) member
  rcases token with ⟨kind, text, position⟩
  cases kind with
  | endOfInput => exact (more rfl).elim
  | _ => rfl

theorem meetsEnd_step {state : State} (more : token.kind ≠ .endOfInput)
    (member : diagnostic ∈ (state.step token).2) : diagnostic.meetsEnd = false := by
  rcases state with ⟨finished, frames, mode⟩
  cases mode with
  | expression => exact meetsEnd_readPart member
  | head opening =>
      by_cases keyword : token.kind = .identifier ∧ token.text = functionKeyword
      · rw [step, readHead_keyword keyword] at member
        cases member
      · by_cases called : token.kind = .identifier ∨ token.isOperator = true
        · rw [step, readHead_called keyword called] at member
          cases member
        · rw [step, readHead_rejected called] at member
          exact meetsEnd_rejectName more member
  | name opening =>
      by_cases bracket : token.kind.isBracket = true
      · rw [step, readName_rejected bracket] at member
        exact meetsEnd_rejectName more member
      · rw [step, readName_accepted bracket] at member
        cases member
  | skip opening nested => exact meetsEnd_passOver member

theorem meetsEnd_readAll {state : State} {words : List Token}
    (more : ∀ word ∈ words, word.kind ≠ .endOfInput)
    (member : diagnostic ∈ (state.readAll words).2) :
    diagnostic.meetsEnd = false := by
  induction words generalizing state with
  | nil => cases member
  | cons word words induction =>
      rcases List.forall_mem_cons.mp more with ⟨first, later⟩
      rcases List.mem_append.mp member with member | member
      · exact meetsEnd_step first member
      · exact induction later member

/-! ## The end -/

/-- Where something is open, the end is reported and the innermost construct is given up,
or else the end stands in the place of a head. -/
theorem stepEnd_cases {state : State} (position : Position)
    (busy : state.isIdle = false) :
    (∃ construct first frames, state.stepEnd position =
      report (.unexpectedEnd construct position) (abandon state.finished first frames)) ∨
    ∃ opening, state.stepEnd position =
      report (.invalidFunctionName .endOfInput position)
        (deliver state.finished opening none state.frames) := by
  rcases state with ⟨finished, frames, mode⟩
  cases mode with
  | expression =>
      cases frames with
      | nil => cases busy
      | cons frame frames =>
          cases frame with
          | sequence form opening items =>
              exact .inl ⟨form.construct, opening, frames, rfl⟩
          | declaration opening name =>
              exact .inl ⟨declarationConstruct, opening, frames, rfl⟩
  | head opening => exact .inr ⟨opening, rfl⟩
  | name opening => exact .inl ⟨declarationConstruct, opening, frames, rfl⟩
  | skip opening nested => exact .inl ⟨skippedConstruct, opening, frames, rfl⟩

theorem exists_reports_stepEnd {state : State} (position : Position)
    (busy : state.isIdle = false) :
    ∃ diagnostic later, (state.stepEnd position).2 = diagnostic :: later ∧
      diagnostic.meetsEnd = true := by
  rcases stepEnd_cases position busy with
    ⟨construct, first, frames, stepped⟩ | ⟨opening, stepped⟩
  · rw [stepped]
    exact ⟨_, _, rfl, rfl⟩
  · rw [stepped]
    exact ⟨_, _, rfl, rfl⟩

theorem isIdle_of_close {state : State} {position : Position}
    (whole : ∀ diagnostic ∈ (state.close position).2, diagnostic.meetsEnd = false) :
    state.isIdle = true := by
  by_contra busy
  rw [Bool.not_eq_true] at busy
  rcases exists_reports_stepEnd position busy with ⟨diagnostic, later, reports, meets⟩
  rw [close_of_busy position busy, reports] at whole
  have misses := whole diagnostic List.mem_cons_self
  rw [meets] at misses
  cases misses

end State

/-- Words leave nothing open if and only if no diagnostic meets the end. -/
theorem Reading.isIdle_iff_forall_meetsEnd {words : List Token} (position : Position)
    (more : ∀ word ∈ words, word.kind ≠ .endOfInput) :
    (State.initial.readAll words).1.isIdle = true ↔
      ∀ diagnostic ∈ (ofWords words position).diagnostics,
        diagnostic.meetsEnd = false := by
  constructor
  · intro idle diagnostic member
    simp only [ofWords, State.close_of_isIdle position idle, List.append_nil] at member
    exact State.meetsEnd_readAll more member
  · intro whole
    exact State.isIdle_of_close fun diagnostic member =>
      whole diagnostic (List.mem_append_right _ member)

end LispFront
