import LispFront.Failure
import LispFront.Parse.Event
import LispFront.Parse.Step
import LispFront.Token.Cursor

/-! A parser pulls tokens off a cursor as it needs them, and keeps a record of what
happens. -/

namespace LispFront

structure Parser where
  cursor : Cursor
  log : Array Event

namespace Parser

def ofCursor (cursor : Cursor) : Parser := ⟨cursor, #[]⟩

def diagnostics (parser : Parser) : List Diagnostic :=
  parser.log.toList.filterMap Event.diagnostic?

def messages (parser : Parser) : List String :=
  parser.diagnostics.map Diagnostic.message

def hasDiagnostics (parser : Parser) : Bool :=
  !parser.diagnostics.isEmpty

def record (log : Array Event) (reading : Event) (diagnostics : List Diagnostic) :
    Array Event :=
  log.push reading ++ diagnostics.map Event.reported

/-- A bound on the readings to come: each token shortens the text and opens one construct
at most, and each reading of the end closes one. -/
def work (cursor : Cursor) (state : State) : Nat :=
  2 * cursor.rest.length + state.owed

theorem work_step_lt {cursor following : Cursor} {token : Token} (state : State)
    (reading : cursor.next = (token, following)) (more : token.kind ≠ .endOfInput) :
    work following (state.step token).1 < work cursor state := by
  have opened := State.owed_step_le state token
  have shorter := Cursor.length_rest_lt_of_next reading more
  unfold work
  omega

theorem work_stepEnd_lt {cursor following : Cursor} {token : Token} {state : State}
    (reading : cursor.next = (token, following)) (busy : state.isIdle = false) :
    work following (state.stepEnd token.position).1 < work cursor state := by
  have closed := State.owed_stepEnd_lt token.position busy
  have kept := Cursor.length_rest_le_of_next reading
  unfold work
  omega

/-- Pulls tokens until every open construct has met the end of the input. -/
def run (cursor : Cursor) (log : Array Event) (state : State) :
    Array Expression × Parser :=
  match reading : cursor.next with
  | (token, following) =>
      if ended : token.kind = .endOfInput then
        if busy : state.isIdle = false then
          have := work_stepEnd_lt reading busy
          let outcome := state.stepEnd token.position
          run following (record log (.reachedEnd token.position) outcome.2) outcome.1
        else
          (state.finished, ⟨following, log.push (.reachedEnd token.position)⟩)
      else
        have := work_step_lt state reading ended
        let outcome := state.step token
        run following (record log (.scanned token) outcome.2) outcome.1
termination_by work cursor state

def parse (parser : Parser) : Program × Parser :=
  let (finished, parser) := run parser.cursor parser.log .initial
  (⟨finished.toList⟩,
    { parser with
      log := parser.log.push (.parsed finished.size parser.diagnostics.length) })

end Parser

/-! ## Whole texts -/

structure Reading where
  program : Program
  diagnostics : List Diagnostic

namespace Reading

def ofText (source : String) : Reading :=
  let (program, parser) := (Parser.ofCursor (.ofString source)).parse
  ⟨program, parser.diagnostics⟩

def flawless (reading : Reading) : Except Failure Program :=
  if reading.diagnostics.isEmpty then .ok reading.program
  else .error (.parse reading.diagnostics)

/-- What is logged while a text is read. -/
def eventsOfText (source : String) : List Event :=
  (Parser.ofCursor (.ofString source)).parse.2.log.toList.filter Event.isLogged

/-- A bad form does not hide the form after it. -/
example : (ofText "(1 2) (+ 3 4)").program.render = "Call(+; Number(3), Number(4))\n" ∧
    (ofText "(1 2) (+ 3 4)").diagnostics = [.invalidFunctionName .number ⟨1, 2⟩] := by
  decide +kernel

end Reading

end LispFront
