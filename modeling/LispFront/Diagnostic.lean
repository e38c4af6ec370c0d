import LispFront.Token.Basic

/-! What can be wrong with a text. Reading never stops at a problem: each is reported, the
construct it spoils gives no expression, and reading goes on. -/

namespace LispFront

/-- Whether the construct was given up, or only the part of it that was wrong. -/
inductive Severity where
  | fatal
  | recoverable
deriving DecidableEq, Repr

def Severity.spelling : Severity → String
  | fatal => "Fatal"
  | recoverable => "Recoverable"

inductive Diagnostic where
  /-- The input ended inside `construct`; the position is that of the end. -/
  | unexpectedEnd (construct : String) (position : Position)
  /-- A token that names no function heads a form, or is named by a declaration. -/
  | invalidFunctionName (kind : TokenKind) (position : Position)
  /-- No expression begins with this token. -/
  | noExpression (kind : TokenKind) (position : Position)
  /-- The element that begins with `first` gave no expression, and is left out. -/
  | elementDropped (first : Token)
  /-- A parameter is not a name; it is left out. -/
  | expectedIdentifier (found : String) (position : Position)
  /-- A declaration has no array of parameters. -/
  | expectedParameters (found : String) (position : Position)
deriving DecidableEq, Repr

namespace Diagnostic

def severity : Diagnostic → Severity
  | unexpectedEnd .. | invalidFunctionName .. | expectedParameters .. => .fatal
  | noExpression .. | elementDropped _ | expectedIdentifier .. => .recoverable

def locate (message : String) (position : Position) : String :=
  message ++ " at line " ++ toString position.line ++ ", column " ++
    toString position.column

def message : Diagnostic → String
  | unexpectedEnd construct position =>
      locate ("Reached end of input while parsing " ++ construct) position
  | invalidFunctionName kind position =>
      locate ("Function name cannot be " ++ kind.spelling) position
  | noExpression kind position =>
      locate ("No parse expression for token " ++ kind.spelling) position
  | elementDropped first => "Element at token " ++ first.display ++ " was not parsed"
  | expectedIdentifier found position =>
      locate ("Expected identifier, got " ++ found) position
  | expectedParameters found position =>
      locate ("Expected parameter list, got " ++ found) position

instance : ToString Diagnostic := ⟨message⟩

/-- Two diagnostics agree when they are equal but for the position of a token inside. -/
def agrees : Diagnostic → Diagnostic → Bool
  | elementDropped first, elementDropped first' => first.agrees first'
  | left, right => left == right

end Diagnostic

end LispFront
