import LispFront.Diagnostic
import LispFront.Syntax.Render

/-! How far a text has been read. The constructs that are open stand on a stack of frames,
innermost first; the mode says what the next token means to the innermost of them. -/

namespace LispFront

/-! ## Runs of expressions

Arrays, calls and the bodies of declarations are read alike, one expression after the
other up to a closing bracket. -/

/-- What a run of expressions makes when it has been closed. -/
inductive Form where
  | array
  | call (function : Token)
  | body (name : Token) (parameters : List Identifier)
deriving Repr

namespace Form

def closing : Form → TokenKind
  | array => .rightSquare
  | call _ | body .. => .rightRound

def construct : Form → String
  | array => "array"
  | call _ => "call"
  | body .. => "function body"

def build (opening : Token) (items : List Expression) : Form → Expression
  | array => .array opening items
  | call function => .call opening function items
  | body name parameters => .function opening name parameters items

end Form

/-! ## States -/

/-- A construct that is open: a run of which `items` have been read, or a declaration that
has its name and waits for its parameters. -/
inductive Frame where
  | sequence (form : Form) (opening : Token) (items : Array Expression)
  | declaration (opening name : Token)
deriving Repr

/-- What the next token means. -/
inductive Mode where
  /-- It begins an expression or closes the innermost run. -/
  | expression
  /-- It heads the form that `opening` opened. -/
  | head (opening : Token)
  /-- It is the name in the declaration that `opening` opened. -/
  | name (opening : Token)
  /-- It is passed over, with the rest of the form that `opening` opened. Inside the form,
  `nested` more round brackets are open. -/
  | skip (opening : Token) (nested : Nat)
deriving DecidableEq, Repr

/-- The expressions that are complete, the constructs that are open, and the meaning of
what comes next. -/
structure State where
  finished : Array Expression
  frames : List Frame
  mode : Mode
deriving Repr

namespace State

def initial : State := ⟨#[], [], .expression⟩

def isIdle : State → Bool
  | ⟨_, [], .expression⟩ => true
  | _ => false

end State

/-! ## Delivering expressions

When an expression is complete or has been given up, the construct around it takes the
result. A run reports a loss and goes on. A declaration needs an array, of which it keeps
the names; without one it is given up itself. -/

def parameterProblem? (element : Expression) : Option Diagnostic :=
  match element.asIdentifier? with
  | some _ => none
  | none => some (.expectedIdentifier element.render element.token.position)

def describeResult : Option Expression → String
  | some expression => expression.nodeName
  | none => "nothing"

/-- Hands the result of the expression that `first` began to the innermost of the open
constructs. -/
def deliver (finished : Array Expression) (first : Token) (result : Option Expression) :
    List Frame → State × List Diagnostic
  | [] =>
      match result with
      | some expression => (⟨finished.push expression, [], .expression⟩, [])
      | none => (⟨finished, [], .expression⟩, [])
  | .sequence form opening items :: frames =>
      match result with
      | some expression =>
          (⟨finished, .sequence form opening (items.push expression) :: frames,
            .expression⟩, [])
      | none =>
          (⟨finished, .sequence form opening items :: frames, .expression⟩,
            [.elementDropped first])
  | .declaration opening name :: frames =>
      match result with
      | some (.array _ elements) =>
          let form := .body name (elements.filterMap Expression.asIdentifier?)
          (⟨finished, .sequence form opening #[] :: frames, .expression⟩,
            elements.filterMap parameterProblem?)
      | result =>
          (⟨finished, frames, .skip opening 0⟩,
            [.expectedParameters (describeResult result) first.position])

def report (diagnostic : Diagnostic) (outcome : State × List Diagnostic) :
    State × List Diagnostic :=
  (outcome.1, diagnostic :: outcome.2)

end LispFront
