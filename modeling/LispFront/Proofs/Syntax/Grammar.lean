import LispFront.Parse.Step
import Mathlib.Data.List.Forall2

/-! # The grammar

Which trees are trees of the language, and how they are written. A tree keeps some of the
tokens it is written with, each with its place; of the others only the kind and the text
are known. -/

namespace LispFront

/-! ## Valid trees -/

def Identifier.Valid (identifier : Identifier) : Prop :=
  identifier.token.kind = .identifier ∧ identifier.name = identifier.token.text

/-- Operators may be called, and all names but the keyword. -/
def Token.HeadsCall (token : Token) : Prop :=
  token.isOperator = true ∨ token.kind = .identifier ∧ token.text ≠ functionKeyword

/-- A function may have any name that is not a bracket. -/
def Token.NamesFunction (token : Token) : Prop :=
  token.kind ≠ .endOfInput ∧ token.kind.isBracket = false

mutual

def Expression.Valid : Expression → Prop
  | .number token value => token.kind = .number ∧ value = token.text
  | .string token value => token.kind = .string ∧ value = token.text
  | .identifier name => name.Valid
  | .array opening elements => opening.kind = .leftSquare ∧ AllValid elements
  | .call opening function arguments =>
      opening.kind = .leftRound ∧ function.HeadsCall ∧ AllValid arguments
  | .function opening name parameters body =>
      opening.kind = .leftRound ∧ name.NamesFunction ∧
        (∀ parameter ∈ parameters, parameter.Valid) ∧ AllValid body

def AllValid : List Expression → Prop
  | [] => True
  | expression :: rest => expression.Valid ∧ AllValid rest

end

def Program.Valid (program : Program) : Prop :=
  AllValid program.expressions

theorem allValid_iff {expressions : List Expression} :
    AllValid expressions ↔ ∀ expression ∈ expressions, expression.Valid := by
  induction expressions with
  | nil => simp [AllValid]
  | cons expression rest induction => simp [AllValid, induction]

theorem Expression.Valid.children {expression : Expression} (valid : expression.Valid) :
    ∀ child ∈ expression.children, child.Valid := by
  cases expression with
  | number token value => exact nofun
  | string token value => exact nofun
  | identifier name => exact nofun
  | array opening elements => exact allValid_iff.mp valid.2
  | call opening function arguments => exact allValid_iff.mp valid.2.2
  | function opening name parameters body => exact allValid_iff.mp valid.2.2.2

theorem allValid_append {first second : List Expression} (firstValid : AllValid first)
    (secondValid : AllValid second) : AllValid (first ++ second) := by
  induction first with
  | nil => exact secondValid
  | cons expression rest induction => exact ⟨firstValid.1, induction firstValid.2⟩

theorem allValid_push {expressions : Array Expression} {expression : Expression}
    (allValid : AllValid expressions.toList) (valid : expression.Valid) :
    AllValid (expressions.push expression).toList := by
  rw [Array.toList_push]
  exact allValid_append allValid ⟨valid, trivial⟩

/-! ## Written trees -/

/-- What stands in one place of a written tree. -/
inductive Mark where
  /-- A token that the tree keeps. -/
  | kept (token : Token)
  /-- A token that it does not keep. -/
  | symbol (kind : TokenKind) (text : String)

namespace Mark

def Fits : Mark → Token → Prop
  | kept token, word => token = word
  | symbol kind text, word => word.kind = kind ∧ word.text = text

theorem exists_append_of_fits {first second : List Mark} {words : List Token}
    (fits : List.Forall₂ Fits (first ++ second) words) :
    ∃ before after, words = before ++ after ∧ List.Forall₂ Fits first before ∧
      List.Forall₂ Fits second after :=
  ⟨words.take first.length, words.drop first.length, (List.take_append_drop _ _).symm,
    (List.forall₂_take_append _ _ _ fits.flip).flip,
    (List.forall₂_drop_append _ _ _ fits.flip).flip⟩

def keyword : Mark := symbol .identifier functionKeyword

def leftSquare : Mark := symbol .leftSquare "["

def rightSquare : Mark := symbol .rightSquare "]"

def rightRound : Mark := symbol .rightRound ")"

end Mark

def Identifier.mark (identifier : Identifier) : Mark :=
  .kept identifier.token

mutual

def Expression.marks : Expression → List Mark
  | .number token _ | .string token _ => [.kept token]
  | .identifier name => [name.mark]
  | .array opening elements => .kept opening :: (marksAll elements ++ [.rightSquare])
  | .call opening function arguments =>
      .kept opening :: .kept function :: (marksAll arguments ++ [.rightRound])
  | .function opening name parameters body =>
      .kept opening :: .keyword :: .kept name :: .leftSquare ::
        (parameters.map Identifier.mark ++
          .rightSquare :: (marksAll body ++ [.rightRound]))

def marksAll : List Expression → List Mark
  | [] => []
  | expression :: rest => expression.marks ++ marksAll rest

end

/-- The words are those of the written program, where the program keeps them and where it
does not. -/
def Program.WrittenAs (program : Program) (words : List Token) : Prop :=
  List.Forall₂ Mark.Fits (marksAll program.expressions) words

theorem marksAll_append (first second : List Expression) :
    marksAll (first ++ second) = marksAll first ++ marksAll second := by
  induction first with
  | nil => rfl
  | cons expression rest induction =>
      simp only [List.cons_append, marksAll, induction, List.append_assoc]

theorem marksAll_map_identifier (identifiers : List Identifier) :
    marksAll (identifiers.map Expression.identifier) =
      identifiers.map Identifier.mark := by
  induction identifiers with
  | nil => rfl
  | cons identifier rest induction =>
      rw [List.map_cons, marksAll, induction]
      rfl

end LispFront
