import LispFront.Diagnostic

/-! What happens while a text is read, in the order in which it happens. Readings of the
end of the input take part in the order and are not logged. -/

namespace LispFront

/-- How much detail a logged event belongs to. -/
inductive Level where
  | trace
  | debug
deriving DecidableEq, Repr

def Level.spelling : Level → String
  | trace => "TRACE"
  | debug => "DEBUG"

inductive Event where
  /-- A token was read. -/
  | scanned (token : Token)
  /-- The end of the input was read. -/
  | reachedEnd (position : Position)
  | reported (diagnostic : Diagnostic)
  /-- A program was completed; `diagnostics` counts all that the parser has reported so
  far. -/
  | parsed (expressions diagnostics : Nat)
deriving DecidableEq, Repr

namespace Event

def level : Event → Level
  | scanned _ | reachedEnd _ => .trace
  | reported _ | parsed .. => .debug

def message : Event → String
  | scanned _ => "scanned token"
  | reachedEnd _ => "reached end"
  | reported _ => "parse diagnostic"
  | parsed .. => "parsed program"

def isLogged : Event → Bool
  | reachedEnd _ => false
  | _ => true

def diagnostic? : Event → Option Diagnostic
  | reported diagnostic => some diagnostic
  | _ => none

end Event

end LispFront
