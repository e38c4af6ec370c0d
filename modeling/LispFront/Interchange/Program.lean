import LispFront.Failure
import LispFront.Interchange.Library
import LispFront.Syntax.Basic

/-! Programs as data, and so as JSON texts. -/

namespace LispFront

/-! ## Declarations -/

inductive TypeName where
  | kind
  | token
  | identifier
  | literal
  | array
  | call
  | function
  | expression
  | program
deriving DecidableEq, Repr

def declarations : TypeName → Declaration TypeName
  | .kind => .units (TokenKind.all.map TokenKind.spelling)
  | .token => .record { entries :=
      [("kind", .named .kind), ("text", .text), ("line", .natural),
        ("column", .natural)] }
  | .identifier => .record { entries := [("token", .named .token), ("name", .text)] }
  | .literal => .record { entries := [("token", .named .token), ("value", .text)] }
  | .array => .record { entries :=
      [("token", .named .token), ("elements", .list (.named .expression))] }
  | .call => .record { entries :=
      [("token", .named .token), ("function", .named .token),
        ("args", .list (.named .expression))] }
  | .function => .record { entries :=
      [("token", .named .token), ("name", .named .token),
        ("params", .list (.named .identifier)), ("body", .list (.named .expression))] }
  | .expression => .choice { entries :=
      [("Number", .named .literal), ("String", .named .literal),
        ("Identifier", .named .identifier), ("Array", .named .array),
        ("Call", .named .call), ("Function", .named .function)] }
  | .program => .record { entries := [("expressions", .list (.named .expression))] }

/-! ## Taking apart -/

def Token.toDatum (token : Token) : Datum :=
  .record [("kind", .unit token.kind.spelling), ("text", .text token.text),
    ("line", .natural token.position.line), ("column", .natural token.position.column)]

def Identifier.toDatum (identifier : Identifier) : Datum :=
  .record [("token", identifier.token.toDatum), ("name", .text identifier.name)]

mutual

def Expression.toDatum : Expression → Datum
  | .number token value =>
      .variant "Number" (.record [("token", token.toDatum), ("value", .text value)])
  | .string token value =>
      .variant "String" (.record [("token", token.toDatum), ("value", .text value)])
  | .identifier name => .variant "Identifier" name.toDatum
  | .array opening elements =>
      .variant "Array" (.record [("token", opening.toDatum),
        ("elements", .list (expressionsToData elements))])
  | .call opening function arguments =>
      .variant "Call" (.record [("token", opening.toDatum),
        ("function", function.toDatum), ("args", .list (expressionsToData arguments))])
  | .function opening name parameters body =>
      .variant "Function" (.record [("token", opening.toDatum), ("name", name.toDatum),
        ("params", .list (parameters.map Identifier.toDatum)),
        ("body", .list (expressionsToData body))])

def expressionsToData : List Expression → List Datum
  | [] => []
  | expression :: rest => expression.toDatum :: expressionsToData rest

end

def Program.toDatum (program : Program) : Datum :=
  .record [("expressions", .list (expressionsToData program.expressions))]

/-! ## Putting together -/

def Token.ofDatum? : Datum → Option Token
  | .record [("kind", .unit kind), ("text", .text text), ("line", .natural line),
      ("column", .natural column)] =>
      (TokenKind.ofSpelling? kind).map fun kind => ⟨kind, text, ⟨line, column⟩⟩
  | _ => none

def Identifier.ofDatum? : Datum → Option Identifier
  | .record [("token", token), ("name", .text name)] =>
      (Token.ofDatum? token).map fun token => ⟨token, name⟩
  | _ => none

mutual

def Expression.ofDatum? : Datum → Option Expression
  | .variant "Number" (.record [("token", token), ("value", .text value)]) => do
      some (.number (← Token.ofDatum? token) value)
  | .variant "String" (.record [("token", token), ("value", .text value)]) => do
      some (.string (← Token.ofDatum? token) value)
  | .variant "Identifier" name => do
      some (.identifier (← Identifier.ofDatum? name))
  | .variant "Array" (.record [("token", opening), ("elements", .list elements)]) => do
      some (.array (← Token.ofDatum? opening) (← expressionsOfData? elements))
  | .variant "Call" (.record [("token", opening), ("function", function),
      ("args", .list arguments)]) => do
      some (.call (← Token.ofDatum? opening) (← Token.ofDatum? function)
        (← expressionsOfData? arguments))
  | .variant "Function" (.record [("token", opening), ("name", name),
      ("params", .list parameters), ("body", .list body)]) => do
      some (.function (← Token.ofDatum? opening) (← Token.ofDatum? name)
        (← parameters.mapM Identifier.ofDatum?) (← expressionsOfData? body))
  | _ => none

def expressionsOfData? : List Datum → Option (List Expression)
  | [] => some []
  | expression :: rest => do
      some ((← Expression.ofDatum? expression) :: (← expressionsOfData? rest))

end

def Program.ofDatum? : Datum → Option Program
  | .record [("expressions", .list expressions)] =>
      (expressionsOfData? expressions).map Program.mk
  | _ => none

/-! ## Texts -/

namespace JsonLibrary

def write (library : JsonLibrary) (program : Program) : Except Failure String :=
  (library.print program.toDatum).mapError .serialization

def readProgram (library : JsonLibrary) (text : String) : Except Failure Program :=
  match library.read declarations (.named .program) text with
  | .error message => .error (.serialization message)
  | .ok datum =>
      match Program.ofDatum? datum with
      | some program => .ok program
      | none => .error (.serialization "no program")

end JsonLibrary

end LispFront
