import LispFront.Failure
import LispFront.Numeral.Decimal
import LispFront.Syntax.Basic

/-! What the tree is shown as, and what its numbers stand for. A rendering takes one line.
It leaves out positions and the kinds of tokens, and writes the text of a string without
quotes. -/

namespace LispFront

def Identifier.render (identifier : Identifier) : String :=
  "Identifier(" ++ identifier.name ++ ")"

def separated (parts : List String) : String :=
  ", ".intercalate parts

mutual

def Expression.render : Expression → String
  | .number _ value => "Number(" ++ value ++ ")"
  | .string _ value => "String(" ++ value ++ ")"
  | .identifier name => name.render
  | .array _ elements => "Array[" ++ separated (renderAll elements) ++ "]"
  | .call _ function arguments =>
      "Call(" ++ function.text ++ "; " ++ separated (renderAll arguments) ++ ")"
  | .function _ name parameters body =>
      "Function(" ++ name.text ++ "; [" ++
        separated (parameters.map Identifier.render) ++ "]; " ++
          separated (renderAll body) ++ ")"

def renderAll : List Expression → List String
  | [] => []
  | expression :: rest => expression.render :: renderAll rest

end

theorem renderAll_eq_map (expressions : List Expression) :
    renderAll expressions = expressions.map Expression.render := by
  induction expressions with
  | nil => rfl
  | cons expression rest induction => simp [renderAll, induction]

def Program.render (program : Program) : String :=
  String.join (program.expressions.map fun expression => expression.render ++ "\n")

instance : ToString Identifier := ⟨Identifier.render⟩

instance : ToString Expression := ⟨Expression.render⟩

instance : ToString Program := ⟨Program.render⟩

/-- The value of a number node; any other node is refused under its rendering. Reading a
text accepts every run of digits and dots as a number, so a run with a second dot is
refused here. -/
def Expression.numberValue (expression : Expression) : Except Failure Binary64 :=
  match expression with
  | .number _ value =>
      match Numeral.ofText? value with
      | some numeral => .ok numeral.toBinary64
      | none => .error (.invalidNumber value)
  | other => .error (.invalidNumber other.render)

end LispFront
