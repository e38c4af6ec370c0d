import LispFront.Proofs.Parse.Reading
import LispFront.Proofs.Parse.Step
import LispFront.Proofs.Relocation

/-! # Resumption

Reading goes on as if the text had begun where no construct is open: what has been
finished stays in front, and the rest is read as it would be read alone, at other places
(`readAll_resume`, `close_resume`). -/

namespace LispFront

section

variable (move : Position → Position)

def Form.relocate : Form → Form
  | array => array
  | call function => call (function.relocate move)
  | body name parameters =>
      body (name.relocate move) (parameters.map (Identifier.relocate move))

def Frame.relocate : Frame → Frame
  | sequence form opening items =>
      sequence (form.relocate move) (opening.relocate move)
        (items.map (Expression.relocate move))
  | declaration opening name => declaration (opening.relocate move) (name.relocate move)

def Mode.relocate : Mode → Mode
  | expression => expression
  | head opening => head (opening.relocate move)
  | name opening => name (opening.relocate move)
  | skip opening nested => skip (opening.relocate move) nested

@[simp] theorem Form.closing_relocate (form : Form) :
    (form.relocate move).closing = form.closing := by
  cases form <;> rfl

@[simp] theorem Form.construct_relocate (form : Form) :
    (form.relocate move).construct = form.construct := by
  cases form <;> rfl

theorem Form.build_relocate (form : Form) (opening : Token) (items : List Expression) :
    (form.relocate move).build (opening.relocate move)
      (items.map (Expression.relocate move)) =
        (form.build opening items).relocate move := by
  cases form <;> simp only [relocate, build, Expression.relocate, relocateAll_eq_map]

end

namespace State

variable (earlier : Array Expression) (move : Position → Position)

/-- The state at other places, with `earlier` finished in front of it. -/
def resume (state : State) : State :=
  ⟨earlier ++ state.finished.map (Expression.relocate move),
    state.frames.map (Frame.relocate move), state.mode.relocate move⟩

def resumeOutcome (outcome : State × List Diagnostic) : State × List Diagnostic :=
  (outcome.1.resume earlier move, outcome.2.map (Diagnostic.relocate move))

variable (finished : Array Expression)

theorem deliver_resume (first : Token) (result : Option Expression)
    (frames : List Frame) :
    deliver (earlier ++ finished.map (Expression.relocate move)) (first.relocate move)
        (result.map (Expression.relocate move)) (frames.map (Frame.relocate move)) =
      resumeOutcome earlier move (deliver finished first result frames) := by
  cases frames with
  | nil =>
      cases result with
      | none => rfl
      | some expression => simp [deliver, resumeOutcome, resume, Mode.relocate]
  | cons frame frames =>
      cases frame with
      | sequence form opening items =>
          cases result with
          | none => rfl
          | some expression =>
              simp [deliver, resumeOutcome, resume, Mode.relocate, Frame.relocate]
      | declaration opening name =>
          rcases result with _ | expression
          · rfl
          · cases expression with
            | array bracket elements =>
                simp [deliver, resumeOutcome, resume, Mode.relocate,
                  Frame.relocate, Form.relocate, Expression.relocate,
                  filterMap_asIdentifier?_relocateAll,
                  filterMap_parameterProblem?_relocateAll]
            | number token value => rfl
            | string token value => rfl
            | identifier name => rfl
            | call opening function arguments => rfl
            | function opening name parameters body => rfl

/-! ## Words -/

private theorem readExpression_resume (frames : List Frame) (token : Token) :
    readExpression (earlier ++ finished.map (Expression.relocate move))
        (frames.map (Frame.relocate move)) (token.relocate move) =
      resumeOutcome earlier move (readExpression finished frames token) := by
  simp only [readExpression, Token.kind_relocate]
  split
  · exact deliver_resume earlier move finished token
      (some (.number token token.text)) frames
  · exact deliver_resume earlier move finished token
      (some (.string token token.text)) frames
  · exact deliver_resume earlier move finished token
      (some (.identifier (.ofToken token))) frames
  · simp [resumeOutcome, resume, Frame.relocate, Form.relocate, Mode.relocate]
  · rfl
  · exact congrArg (report _) (deliver_resume earlier move finished token none frames)

private theorem readPart_resume (frames : List Frame) (token : Token) :
    readPart (earlier ++ finished.map (Expression.relocate move)) (token.relocate move)
        (frames.map (Frame.relocate move)) =
      resumeOutcome earlier move (readPart finished token frames) := by
  rcases frames with _ | ⟨frame, frames⟩
  · exact readExpression_resume earlier move finished [] token
  · cases frame with
    | sequence form opening items =>
        rw [List.map_cons, Frame.relocate]
        by_cases closes : token.kind = form.closing
        · rw [readPart_closing closes, readPart_closing (by simpa using closes),
            Array.toList_map, Form.build_relocate]
          exact deliver_resume earlier move finished opening
            (some (form.build opening items.toList))
            frames
        · rw [readPart_item closes, readPart_item (by simpa using closes)]
          exact readExpression_resume earlier move finished
            (.sequence form opening items :: frames)
            token
    | declaration opening name =>
        rw [List.map_cons, Frame.relocate]
        by_cases closes : token.kind = .rightRound
        · rw [readPart_missing closes,
            readPart_missing (token.kind_relocate move ▸ closes)]
          exact congrArg (report _)
            (deliver_resume earlier move finished opening none frames)
        · rw [readPart_parameters closes,
            readPart_parameters (token.kind_relocate move ▸ closes)]
          exact readExpression_resume earlier move finished
            (.declaration opening name :: frames) token

theorem passOver_resume (frames : List Frame) (opening : Token) (nested : Nat)
    (token : Token) :
    passOver (earlier ++ finished.map (Expression.relocate move))
        (frames.map (Frame.relocate move)) (opening.relocate move) nested
        (token.relocate move) =
      resumeOutcome earlier move (passOver finished frames opening nested token) := by
  simp only [passOver, Token.kind_relocate]
  split
  · rfl
  · rfl
  · exact deliver_resume earlier move finished opening none frames
  · rfl

theorem rejectName_resume (frames : List Frame) (opening token : Token) :
    rejectName (earlier ++ finished.map (Expression.relocate move))
        (frames.map (Frame.relocate move)) (opening.relocate move) (token.relocate move) =
      resumeOutcome earlier move (rejectName finished frames opening token) := by
  rw [rejectName_eq, rejectName_eq]
  exact congrArg (report _) (passOver_resume earlier move finished frames opening 0 token)

private theorem readHead_resume (frames : List Frame) (opening token : Token) :
    readHead (earlier ++ finished.map (Expression.relocate move))
        (frames.map (Frame.relocate move)) (opening.relocate move) (token.relocate move) =
      resumeOutcome earlier move (readHead finished frames opening token) := by
  by_cases keyword : token.kind = .identifier ∧ token.text = functionKeyword
  · rw [readHead_keyword keyword, readHead_keyword (by simpa using keyword)]
    rfl
  · by_cases called : token.kind = .identifier ∨ token.isOperator
    · rw [readHead_called keyword called,
        readHead_called (by simpa using keyword) (by simpa using called)]
      simp [resumeOutcome, resume, Frame.relocate, Form.relocate, Mode.relocate]
    · rw [readHead_rejected called, readHead_rejected (by simpa using called)]
      exact rejectName_resume earlier move finished frames opening token

private theorem readName_resume (frames : List Frame) (opening token : Token) :
    readName (earlier ++ finished.map (Expression.relocate move))
        (frames.map (Frame.relocate move)) (opening.relocate move) (token.relocate move) =
      resumeOutcome earlier move (readName finished frames opening token) := by
  by_cases bracket : token.kind.isBracket
  · rw [readName_rejected bracket, readName_rejected (token.kind_relocate move ▸ bracket)]
    exact rejectName_resume earlier move finished frames opening token
  · rw [readName_accepted bracket, readName_accepted (token.kind_relocate move ▸ bracket)]
    rfl

private theorem step_resume (state : State) (token : Token) :
    (state.resume earlier move).step (token.relocate move) =
      resumeOutcome earlier move (state.step token) := by
  rcases state with ⟨finished, frames, mode⟩
  cases mode with
  | expression => exact readPart_resume earlier move finished frames token
  | head opening => exact readHead_resume earlier move finished frames opening token
  | name opening => exact readName_resume earlier move finished frames opening token
  | skip opening nested =>
      exact passOver_resume earlier move finished frames opening nested token

theorem readAll_resume (state : State) (words : List Token) :
    (state.resume earlier move).readAll (words.map (Token.relocate move)) =
      resumeOutcome earlier move (state.readAll words) := by
  induction words generalizing state with
  | nil => rfl
  | cons word words induction =>
      rw [List.map_cons, readAll, step_resume]
      simp only [resumeOutcome] at induction ⊢
      rw [induction, readAll, List.map_append]

/-! ## The end of the input -/

theorem abandon_resume (first : Token) (frames : List Frame) :
    abandon (earlier ++ finished.map (Expression.relocate move)) (first.relocate move)
        (frames.map (Frame.relocate move)) =
      resumeOutcome earlier move (abandon finished first frames) := by
  induction frames generalizing first with
  | nil => rfl
  | cons frame frames induction =>
      cases frame with
      | sequence form opening items => rfl
      | declaration opening name => exact induction opening

private theorem endPart_resume (position : Position) (frames : List Frame) :
    endPart (earlier ++ finished.map (Expression.relocate move)) (move position)
        (frames.map (Frame.relocate move)) =
      resumeOutcome earlier move (endPart finished position frames) := by
  rcases frames with _ | ⟨frame, frames⟩
  · rfl
  · cases frame with
    | sequence form opening items =>
        simp only [List.map_cons, Frame.relocate, endPart, Form.construct_relocate]
        exact congrArg (report _) (abandon_resume earlier move finished opening frames)
    | declaration opening name =>
        exact congrArg (report _) (abandon_resume earlier move finished opening frames)

private theorem stepEnd_resume (state : State) (position : Position) :
    (state.resume earlier move).stepEnd (move position) =
      resumeOutcome earlier move (state.stepEnd position) := by
  rcases state with ⟨finished, frames, mode⟩
  cases mode with
  | expression => exact endPart_resume earlier move finished position frames
  | head opening =>
      exact congrArg (report _) (deliver_resume earlier move finished opening none frames)
  | name opening =>
      exact congrArg (report _) (abandon_resume earlier move finished opening frames)
  | skip opening nested =>
      exact congrArg (report _) (abandon_resume earlier move finished opening frames)

private theorem isIdle_resume (state : State) :
    (state.resume earlier move).isIdle = state.isIdle := by
  rcases state with ⟨finished, _ | ⟨frame, frames⟩, mode⟩ <;> cases mode <;> rfl

theorem close_resume (state : State) (position : Position) :
    (state.resume earlier move).close (move position) =
      (earlier ++ (state.close position).1.map (Expression.relocate move),
        (state.close position).2.map (Diagnostic.relocate move)) := by
  induction state using close.induct position with
  | case1 state busy decrease outcome induction =>
      rw [close_of_busy _ ((isIdle_resume earlier move state).trans busy),
        close_of_busy _ busy, stepEnd_resume]
      simp only [resumeOutcome]
      rw [induction, List.map_append]
  | case2 state busy =>
      have idle : state.isIdle = true := by simpa using busy
      rw [close_of_isIdle _ ((isIdle_resume earlier move state).trans idle),
        close_of_isIdle _ idle]
      rfl

end State

end LispFront
