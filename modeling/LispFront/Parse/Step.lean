import LispFront.Parse.State

/-! The reading of one token. Each token is looked at once; it moves the state on, and
what it brings to light is reported before the next token is read. At the end of the input
the open constructs are given up one by one, innermost first, and each of them meets the
end for itself. -/

namespace LispFront

/-! ## Words -/

def functionKeyword : String := "fn"

def declarationConstruct : String := "function declaration"

def skippedConstruct : String := "round-bracket form"

/-! ## Tokens -/

namespace State

def readExpression (finished : Array Expression) (frames : List Frame) (token : Token) :
    State × List Diagnostic :=
  match token.kind with
  | .number => deliver finished token (some (.number token token.text)) frames
  | .string => deliver finished token (some (.string token token.text)) frames
  | .identifier => deliver finished token (some (.identifier (.ofToken token))) frames
  | .leftSquare => (⟨finished, .sequence .array token #[] :: frames, .expression⟩, [])
  | .leftRound => (⟨finished, frames, .head token⟩, [])
  | kind =>
      report (.noExpression kind token.position) (deliver finished token none frames)

/-- Reads the closing bracket of the innermost construct, or the first token of its next
part. -/
def readPart (finished : Array Expression) (token : Token) :
    List Frame → State × List Diagnostic
  | .sequence form opening items :: frames =>
      if token.kind = form.closing then
        deliver finished opening (some (form.build opening items.toList)) frames
      else
        readExpression finished (.sequence form opening items :: frames) token
  | .declaration opening name :: frames =>
      if token.kind = .rightRound then
        report (.expectedParameters token.kind.spelling token.position)
          (deliver finished opening none frames)
      else
        readExpression finished (.declaration opening name :: frames) token
  | [] => readExpression finished [] token

/-- Gives up the form that `opening` opened, as `token` cannot stand where a function is
to be named. The rest of the form is passed over, unless `token` has ended it. -/
def rejectName (finished : Array Expression) (frames : List Frame)
    (opening token : Token) : State × List Diagnostic :=
  report (.invalidFunctionName token.kind token.position)
    (match token.kind with
    | .rightRound => deliver finished opening none frames
    | .leftRound => (⟨finished, frames, .skip opening 1⟩, [])
    | _ => (⟨finished, frames, .skip opening 0⟩, []))

def readHead (finished : Array Expression) (frames : List Frame) (opening token : Token) :
    State × List Diagnostic :=
  if token.kind = .identifier ∧ token.text = functionKeyword then
    (⟨finished, frames, .name opening⟩, [])
  else if token.kind = .identifier ∨ token.isOperator then
    (⟨finished, .sequence (.call token) opening #[] :: frames, .expression⟩, [])
  else
    rejectName finished frames opening token

/-- Reads the name in a declaration, which may be any token but a bracket. -/
def readName (finished : Array Expression) (frames : List Frame) (opening token : Token) :
    State × List Diagnostic :=
  if token.kind.isBracket then
    rejectName finished frames opening token
  else
    (⟨finished, .declaration opening token :: frames, .expression⟩, [])

/-- Passes over a token of the form that `opening` opened, and leaves the form when it
closes. Only round brackets count. -/
def passOver (finished : Array Expression) (frames : List Frame) (opening : Token)
    (nested : Nat) (token : Token) : State × List Diagnostic :=
  match token.kind, nested with
  | .leftRound, nested => (⟨finished, frames, .skip opening (nested + 1)⟩, [])
  | .rightRound, nested + 1 => (⟨finished, frames, .skip opening nested⟩, [])
  | .rightRound, 0 => deliver finished opening none frames
  | _, nested => (⟨finished, frames, .skip opening nested⟩, [])

def step (state : State) (token : Token) : State × List Diagnostic :=
  match state with
  | ⟨finished, frames, .expression⟩ => readPart finished token frames
  | ⟨finished, frames, .head opening⟩ => readHead finished frames opening token
  | ⟨finished, frames, .name opening⟩ => readName finished frames opening token
  | ⟨finished, frames, .skip opening nested⟩ =>
      passOver finished frames opening nested token

/-! ## The end of the input -/

/-- Gives up the construct that `first` began, as the report of the end has just said.
Declarations that waited for it as their parameters are given up with it and in
silence. -/
def abandon (finished : Array Expression) (first : Token) :
    List Frame → State × List Diagnostic
  | [] => (⟨finished, [], .expression⟩, [])
  | .sequence form opening items :: frames =>
      (⟨finished, .sequence form opening items :: frames, .expression⟩,
        [.elementDropped first])
  | .declaration opening _ :: frames => abandon finished opening frames

def endPart (finished : Array Expression) (position : Position) :
    List Frame → State × List Diagnostic
  | [] => (⟨finished, [], .expression⟩, [])
  | .sequence form opening _ :: frames =>
      report (.unexpectedEnd form.construct position) (abandon finished opening frames)
  | .declaration opening _ :: frames =>
      report (.unexpectedEnd declarationConstruct position)
        (abandon finished opening frames)

def stepEnd (state : State) (position : Position) : State × List Diagnostic :=
  match state with
  | ⟨finished, frames, .expression⟩ => endPart finished position frames
  | ⟨finished, frames, .head opening⟩ =>
      report (.invalidFunctionName .endOfInput position)
        (deliver finished opening none frames)
  | ⟨finished, frames, .name opening⟩ =>
      report (.unexpectedEnd declarationConstruct position)
        (abandon finished opening frames)
  | ⟨finished, frames, .skip opening _⟩ =>
      report (.unexpectedEnd skippedConstruct position) (abandon finished opening frames)

/-! ## Readings of the end

A state owes one reading of the end for each open construct, and one more for a form whose
head, name or rest it is about to read. A token adds one at most, and each reading of the
end takes one away. -/

def owed (state : State) : Nat :=
  state.frames.length +
    match state.mode with
    | .expression => 0
    | .head _ | .name _ | .skip .. => 1

theorem owed_deliver_le (finished : Array Expression) (first : Token)
    (result : Option Expression) (frames : List Frame) :
    (deliver finished first result frames).1.owed ≤ frames.length := by
  unfold deliver
  split
  · split <;> simp [owed]
  · split <;> simp [owed]
  · split <;> simp [owed]

private theorem owed_readExpression_le (finished : Array Expression) (frames : List Frame)
    (token : Token) :
    (readExpression finished frames token).1.owed ≤ frames.length + 1 := by
  have delivered := owed_deliver_le finished token
  unfold readExpression
  split
  · exact Nat.le_succ_of_le (delivered _ _)
  · exact Nat.le_succ_of_le (delivered _ _)
  · exact Nat.le_succ_of_le (delivered _ _)
  · simp [owed]
  · simp [owed]
  · exact Nat.le_succ_of_le (delivered _ _)

private theorem owed_rejectName_le (finished : Array Expression) (frames : List Frame)
    (opening token : Token) :
    (rejectName finished frames opening token).1.owed ≤ frames.length + 1 := by
  unfold rejectName report
  split
  · exact Nat.le_succ_of_le (owed_deliver_le _ _ _ _)
  · simp [owed]
  · simp [owed]

theorem owed_step_le (state : State) (token : Token) :
    (state.step token).1.owed ≤ state.owed + 1 := by
  obtain ⟨finished, frames, mode⟩ := state
  cases mode with
  | expression =>
      simp only [step, readPart]
      split
      · split
        · exact Nat.le_trans (owed_deliver_le _ _ _ _) (by simp [owed]; omega)
        · exact owed_readExpression_le _ _ _
      · split
        · exact Nat.le_trans (owed_deliver_le _ _ _ _) (by simp [owed]; omega)
        · exact owed_readExpression_le _ _ _
      · exact owed_readExpression_le _ _ _
  | head opening =>
      simp only [step, readHead]
      split
      · simp [owed]
      split
      · simp [owed]
      · exact Nat.le_succ_of_le (owed_rejectName_le _ _ _ _)
  | name opening =>
      simp only [step, readName]
      split
      · exact Nat.le_succ_of_le (owed_rejectName_le _ _ _ _)
      · simp [owed]
  | skip opening nested =>
      simp only [step, passOver]
      split
      · simp [owed]
      · simp [owed]
      · exact Nat.le_trans (owed_deliver_le _ _ _ _) (by simp [owed]; omega)
      · simp [owed]

private theorem owed_abandon_le (finished : Array Expression) (first : Token)
    (frames : List Frame) : (abandon finished first frames).1.owed ≤ frames.length := by
  induction frames generalizing first with
  | nil => simp [abandon, owed]
  | cons frame frames induction =>
      cases frame with
      | sequence form opening items => simp [abandon, owed]
      | declaration opening name => exact Nat.le_succ_of_le (induction opening)

theorem owed_stepEnd_lt {state : State} (position : Position)
    (busy : state.isIdle = false) : (state.stepEnd position).1.owed < state.owed := by
  obtain ⟨finished, frames, mode⟩ := state
  cases mode with
  | expression =>
      cases frames with
      | nil => simp [isIdle] at busy
      | cons frame frames =>
          cases frame with
          | sequence form opening items =>
              exact Nat.lt_succ_of_le (owed_abandon_le finished opening frames)
          | declaration opening name =>
              exact Nat.lt_succ_of_le (owed_abandon_le finished opening frames)
  | head opening => exact Nat.lt_succ_of_le (owed_deliver_le finished opening none frames)
  | name opening => exact Nat.lt_succ_of_le (owed_abandon_le finished opening frames)
  | skip opening nested =>
      exact Nat.lt_succ_of_le (owed_abandon_le finished opening frames)

end State

end LispFront
