import LispFront.Parse.Parser

/-! # Relocation

The same reading at other places: `move` takes the place of every token to another.
Relocation changes nothing that is rendered. -/

namespace LispFront

variable (move : Position → Position)

/-! ## Trees -/

def Token.relocate (token : Token) : Token :=
  { token with position := move token.position }

def Identifier.relocate (identifier : Identifier) : Identifier :=
  { identifier with token := identifier.token.relocate move }

mutual

def Expression.relocate : Expression → Expression
  | .number token value => .number (token.relocate move) value
  | .string token value => .string (token.relocate move) value
  | .identifier name => .identifier (name.relocate move)
  | .array opening elements => .array (opening.relocate move) (relocateAll elements)
  | .call opening function arguments =>
      .call (opening.relocate move) (function.relocate move) (relocateAll arguments)
  | .function opening name parameters body =>
      .function (opening.relocate move) (name.relocate move)
        (parameters.map (Identifier.relocate move)) (relocateAll body)

def relocateAll : List Expression → List Expression
  | [] => []
  | expression :: rest => expression.relocate :: relocateAll rest

end

def Program.relocate (program : Program) : Program :=
  ⟨program.expressions.map (Expression.relocate move)⟩

theorem relocateAll_eq_map (expressions : List Expression) :
    relocateAll move expressions = expressions.map (Expression.relocate move) := by
  induction expressions with
  | nil => rfl
  | cons expression rest induction => rw [relocateAll, induction, List.map_cons]

@[simp] theorem Token.kind_relocate (token : Token) :
    (token.relocate move).kind = token.kind := rfl

@[simp] theorem Token.text_relocate (token : Token) :
    (token.relocate move).text = token.text := rfl

@[simp] theorem Token.isOperator_relocate (token : Token) :
    (token.relocate move).isOperator = token.isOperator := rfl

@[simp] theorem Identifier.render_relocate (identifier : Identifier) :
    (identifier.relocate move).render = identifier.render := rfl

namespace Expression

@[simp] theorem token_relocate (expression : Expression) :
    (expression.relocate move).token = expression.token.relocate move := by
  cases expression <;> rfl

@[simp] theorem asIdentifier?_relocate (expression : Expression) :
    (expression.relocate move).asIdentifier? =
      expression.asIdentifier?.map (Identifier.relocate move) := by
  cases expression <;> rfl

end Expression

theorem filterMap_asIdentifier?_relocateAll (elements : List Expression) :
    (relocateAll move elements).filterMap Expression.asIdentifier? =
      (elements.filterMap Expression.asIdentifier?).map (Identifier.relocate move) := by
  rw [relocateAll_eq_map, List.filterMap_map, List.map_filterMap]
  congr 1
  funext element
  exact element.asIdentifier?_relocate move

mutual

theorem Expression.render_relocate (expression : Expression) :
    (expression.relocate move).render = expression.render := by
  cases expression with
  | number token value => rfl
  | string token value => rfl
  | identifier name => rfl
  | array opening elements =>
      simp only [Expression.relocate, Expression.render, renderAll_relocateAll elements]
  | call opening function arguments =>
      simp only [Expression.relocate, Expression.render, renderAll_relocateAll arguments,
        Token.text_relocate]
  | function opening name parameters body =>
      simp only [Expression.relocate, Expression.render, renderAll_relocateAll body,
        Token.text_relocate, List.map_map, Function.comp_def, Identifier.render_relocate]

theorem renderAll_relocateAll (expressions : List Expression) :
    renderAll (relocateAll move expressions) = renderAll expressions := by
  cases expressions with
  | nil => rfl
  | cons expression rest =>
      simp only [relocateAll, renderAll, expression.render_relocate,
        renderAll_relocateAll rest]

end

/-! ## Diagnostics -/

def Diagnostic.relocate : Diagnostic → Diagnostic
  | unexpectedEnd construct position => unexpectedEnd construct (move position)
  | invalidFunctionName kind position => invalidFunctionName kind (move position)
  | noExpression kind position => noExpression kind (move position)
  | elementDropped first => elementDropped (first.relocate move)
  | expectedIdentifier found position => expectedIdentifier found (move position)
  | expectedParameters found position => expectedParameters found (move position)

def Reading.relocate (reading : Reading) : Reading :=
  ⟨reading.program.relocate move, reading.diagnostics.map (Diagnostic.relocate move)⟩

private theorem parameterProblem?_relocate (element : Expression) :
    parameterProblem? (element.relocate move) =
      (parameterProblem? element).map (Diagnostic.relocate move) := by
  simp only [parameterProblem?, Expression.asIdentifier?_relocate,
    Expression.render_relocate, Expression.token_relocate]
  cases element.asIdentifier? <;> rfl

theorem filterMap_parameterProblem?_relocateAll (elements : List Expression) :
    (relocateAll move elements).filterMap parameterProblem? =
      (elements.filterMap parameterProblem?).map (Diagnostic.relocate move) := by
  rw [relocateAll_eq_map, List.filterMap_map, List.map_filterMap]
  congr 1
  funext element
  exact parameterProblem?_relocate move element

end LispFront
