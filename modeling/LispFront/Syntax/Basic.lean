import LispFront.Token.Basic

/-! The syntax tree. Every node keeps the token it was read from: a leaf its own token, a
bracketed form the bracket that opens it. -/

namespace LispFront

structure Identifier where
  token : Token
  name : String
deriving DecidableEq, Repr

/-- An expression. A number keeps its text, which need not be a numeral. -/
inductive Expression where
  | number (token : Token) (value : String)
  | string (token : Token) (value : String)
  | identifier (name : Identifier)
  | array (opening : Token) (elements : List Expression)
  | call (opening function : Token) (arguments : List Expression)
  | function (opening name : Token) (parameters : List Identifier)
      (body : List Expression)
deriving Repr

structure Program where
  expressions : List Expression
deriving Repr

namespace Identifier

def ofToken (token : Token) : Identifier :=
  ⟨token, token.text⟩

def agrees (left right : Identifier) : Bool :=
  left.token.agrees right.token && left.name == right.name

end Identifier

namespace Expression

def token : Expression → Token
  | number token _ | string token _ => token
  | identifier name => name.token
  | array opening _ | call opening _ _ | function opening _ _ _ => opening

def nodeName : Expression → String
  | number .. => "NumberExpression"
  | string .. => "StringExpression"
  | identifier _ => "IdentifierExpression"
  | array .. => "ArrayExpression"
  | call .. => "CallExpression"
  | function .. => "FunctionExpression"

/-- The expressions directly below a node. Parameters are not expressions. -/
def children : Expression → List Expression
  | number .. | string .. | identifier _ => []
  | array _ elements => elements
  | call _ _ arguments => arguments
  | function _ _ _ body => body

def asIdentifier? : Expression → Option Identifier
  | identifier name => some name
  | _ => none

end Expression

/-! ## Agreement

Trees agree when they differ in nothing but the positions of their tokens. -/

mutual

def Expression.agrees : Expression → Expression → Bool
  | .number token value, .number token' value' => token.agrees token' && value == value'
  | .string token value, .string token' value' => token.agrees token' && value == value'
  | .identifier name, .identifier name' => name.agrees name'
  | .array opening elements, .array opening' elements' =>
      opening.agrees opening' && agreeAll elements elements'
  | .call opening function arguments, .call opening' function' arguments' =>
      opening.agrees opening' && function.agrees function' &&
        agreeAll arguments arguments'
  | .function opening name parameters body, .function opening' name' parameters' body' =>
      opening.agrees opening' && name.agrees name' &&
        parameters.isEqv parameters' Identifier.agrees && agreeAll body body'
  | _, _ => false

def agreeAll : List Expression → List Expression → Bool
  | [], [] => true
  | expression :: rest, expression' :: rest' =>
      expression.agrees expression' && agreeAll rest rest'
  | _, _ => false

end

def Program.agrees (left right : Program) : Bool :=
  agreeAll left.expressions right.expressions

/-! ## Nodes

The nodes of a program come each before its own children. The depth of a node counts the
nodes around it. -/

structure Node where
  depth : Nat
  expression : Expression

mutual

def Expression.nodes (depth : Nat) (expression : Expression) : List Node :=
  ⟨depth, expression⟩ ::
    match expression with
    | .number .. | .string .. | .identifier _ => []
    | .array _ elements => nodesBelow (depth + 1) elements
    | .call _ _ arguments => nodesBelow (depth + 1) arguments
    | .function _ _ _ body => nodesBelow (depth + 1) body

def nodesBelow (depth : Nat) : List Expression → List Node
  | [] => []
  | expression :: rest => expression.nodes depth ++ nodesBelow depth rest

end

def Program.nodes (program : Program) : List Node :=
  nodesBelow 0 program.expressions

end LispFront
