import LispFront.Proofs.Relocation

/-! # Agreement

Two trees agree if and only if they are the same tree once all tokens are taken to one
place (`Expression.agrees_iff_relocate`). Diagnostics are alike when they differ in
nothing but places. -/

namespace LispFront

def Position.forget (_ : Position) : Position := .origin

/-! ## Trees -/

theorem isEqv_iff_map_eq {α β : Type} {same : α → α → Bool} {image : α → β}
    (same_iff : ∀ left right, same left right = true ↔ image left = image right)
    (left right : List α) :
    left.isEqv right same = true ↔ left.map image = right.map image := by
  induction left generalizing right with
  | nil => cases right <;> simp [List.isEqv]
  | cons first rest induction =>
      cases right with
      | nil => simp [List.isEqv]
      | cons first' rest' => simp [List.isEqv, same_iff, induction]

theorem Token.agrees_iff_relocate (left right : Token) :
    left.agrees right = true ↔ left.relocate .forget = right.relocate .forget := by
  rw [agrees_iff]
  simp [relocate, Position.forget]

theorem Identifier.agrees_iff_relocate (left right : Identifier) :
    left.agrees right = true ↔ left.relocate .forget = right.relocate .forget := by
  simp [agrees, relocate, Token.agrees_iff_relocate]

mutual

theorem Expression.agrees_iff_relocate (left right : Expression) :
    left.agrees right = true ↔ left.relocate .forget = right.relocate .forget := by
  cases left with
  | number token value =>
      cases right <;>
        simp [Expression.agrees, Expression.relocate, Token.agrees_iff_relocate]
  | string token value =>
      cases right <;>
        simp [Expression.agrees, Expression.relocate, Token.agrees_iff_relocate]
  | identifier name =>
      cases right <;>
        simp [Expression.agrees, Expression.relocate, Identifier.agrees_iff_relocate]
  | array opening elements =>
      have inner := agreeAll_iff_relocateAll elements
      cases right <;>
        simp [Expression.agrees, Expression.relocate, Token.agrees_iff_relocate, inner]
  | call opening function arguments =>
      have inner := agreeAll_iff_relocateAll arguments
      cases right <;>
        simp [Expression.agrees, Expression.relocate, Token.agrees_iff_relocate,
          inner, and_assoc]
  | function opening name parameters body =>
      have inner := agreeAll_iff_relocateAll body
      have names := isEqv_iff_map_eq Identifier.agrees_iff_relocate parameters
      cases right <;>
        simp [Expression.agrees, Expression.relocate, Token.agrees_iff_relocate, inner,
          names, and_assoc]

theorem agreeAll_iff_relocateAll (left right : List Expression) :
    agreeAll left right = true ↔
      relocateAll .forget left = relocateAll .forget right := by
  cases left with
  | nil => cases right <;> simp [agreeAll, relocateAll]
  | cons expression rest =>
      have first := expression.agrees_iff_relocate
      have later := agreeAll_iff_relocateAll rest
      cases right <;> simp [agreeAll, relocateAll, first, later]

end

theorem Program.agrees_iff_relocate (left right : Program) :
    left.agrees right = true ↔ left.relocate .forget = right.relocate .forget := by
  simp [agrees, relocate, agreeAll_iff_relocateAll, relocateAll_eq_map]

theorem Program.render_eq_of_agrees {left right : Program}
    (agree : left.agrees right = true) : left.render = right.render := by
  have render_relocate (program : Program) : (program.relocate .forget).render =
      program.render := by
    simp only [render, relocate, List.map_map, Function.comp_def,
      Expression.render_relocate]
  rw [← render_relocate left, (agrees_iff_relocate left right).mp agree,
    render_relocate right]

/-! ## Diagnostics -/

/-- The same problem with the same words, wherever it is. -/
inductive Diagnostic.Alike : Diagnostic → Diagnostic → Prop
  | unexpectedEnd {construct : String} {position position' : Position} :
      Alike (.unexpectedEnd construct position) (.unexpectedEnd construct position')
  | invalidFunctionName {kind : TokenKind} {position position' : Position} :
      Alike (.invalidFunctionName kind position) (.invalidFunctionName kind position')
  | noExpression {kind : TokenKind} {position position' : Position} :
      Alike (.noExpression kind position) (.noExpression kind position')
  | elementDropped {first first' : Token} (agree : first.agrees first' = true) :
      Alike (.elementDropped first) (.elementDropped first')
  | expectedIdentifier {found : String} {position position' : Position} :
      Alike (.expectedIdentifier found position) (.expectedIdentifier found position')
  | expectedParameters {found : String} {position position' : Position} :
      Alike (.expectedParameters found position) (.expectedParameters found position')

theorem Diagnostic.alike_of_relocate {left right : Diagnostic}
    (same : left.relocate .forget = right.relocate .forget) : left.Alike right := by
  cases left with
  | elementDropped first =>
      cases right with
      | elementDropped first' =>
          exact .elementDropped
            ((Token.agrees_iff_relocate first first').mpr (elementDropped.inj same))
      | _ => cases same
  | unexpectedEnd construct position => cases right <;> cases same; exact .unexpectedEnd
  | invalidFunctionName kind position =>
      cases right <;> cases same; exact .invalidFunctionName
  | noExpression kind position => cases right <;> cases same; exact .noExpression
  | expectedIdentifier found position =>
      cases right <;> cases same; exact .expectedIdentifier
  | expectedParameters found position =>
      cases right <;> cases same; exact .expectedParameters

end LispFront
