import LispFront.Proofs.Agreement
import LispFront.Proofs.Parse.Concatenation
import Mathlib.Data.List.Forall2

/-! # Independence of layout

Places are carried along and never looked at: words that stand elsewhere are read as the
same trees and the same diagnostics, elsewhere (`relocate_ofWords`). So two texts with the
same tokens are read alike, however their tokens are laid out (`alike_ofText`). -/

namespace LispFront.Reading

/-- The same trees, shown the same, and the same diagnostics in the same order, but for
places. -/
structure Alike (left right : Reading) : Prop where
  program : left.program.agrees right.program = true
  rendering : left.program.render = right.program.render
  diagnostics : List.Forall₂ Diagnostic.Alike left.diagnostics right.diagnostics

theorem relocate_ofWords (move : Position → Position) (words : List Token)
    (position : Position) :
    ofWords (words.map (Token.relocate move)) (move position) =
      (ofWords words position).relocate move := by
  have appended := @ofWords_append [] words move position position rfl
  rwa [ofWords_nil] at appended

private theorem alike_of_relocate {left right : Reading}
    (same : left.relocate .forget = right.relocate .forget) : left.Alike right := by
  have agree := (Program.agrees_iff_relocate _ _).mpr (congrArg program same)
  have each : List.Forall₂ (· = ·) (left.diagnostics.map (Diagnostic.relocate .forget))
      (right.diagnostics.map (Diagnostic.relocate .forget)) := by
    rw [List.forall₂_eq_eq_eq]
    exact congrArg diagnostics same
  rw [List.forall₂_map_left_iff, List.forall₂_map_right_iff] at each
  exact ⟨agree, Program.render_eq_of_agrees agree,
    each.imp fun _ _ => Diagnostic.alike_of_relocate⟩

theorem alike_ofWords {left right : List Token} (leftEnd rightEnd : Position)
    (same : left.map Token.symbol = right.map Token.symbol) :
    (ofWords left leftEnd).Alike (ofWords right rightEnd) := by
  let place (symbol : TokenKind × String) : Token := ⟨symbol.1, symbol.2, .origin⟩
  have relocate : Token.relocate .forget = place ∘ Token.symbol := rfl
  apply alike_of_relocate
  rw [← relocate_ofWords, ← relocate_ofWords, relocate, ← List.map_map,
    ← List.map_map, same]
  rfl

/-- Texts whose tokens agree are read alike. -/
theorem alike_ofText {left right : String}
    (agree : (Cursor.ofString left).tokens.isEqv (Cursor.ofString right).tokens
      Token.agrees = true) :
    (ofText left).Alike (ofText right) := by
  have agrees_iff (left right : Token) : left.agrees right = true ↔
      left.symbol = right.symbol := by
    rw [Token.agrees_iff, Token.symbol, Token.symbol, Prod.mk.injEq]
  rw [isEqv_iff_map_eq agrees_iff] at agree
  rw [ofText_eq_ofWords, ofText_eq_ofWords]
  apply alike_ofWords
  rw [Cursor.words, Cursor.words, List.map_dropLast, agree, ← List.map_dropLast]

theorem alike_ofText_of_malformed :
    (Cursor.ofString ") (fn f [1 x] y)\n[(: \"a\nb\") c (+ 2 %").tokens.isEqv
        (Cursor.ofString "\n)(fn\tf[\n1x]y)[\n(:\"a\nb\"\n)c(+2%\n").tokens
        Token.agrees = true ∧
      (ofText ") (fn f [1 x] y)\n[(: \"a\nb\") c (+ 2 %").Alike
        (ofText "\n)(fn\tf[\n1x]y)[\n(:\"a\nb\"\n)c(+2%\n") := by
  have agree : (Cursor.ofString ") (fn f [1 x] y)\n[(: \"a\nb\") c (+ 2 %").tokens.isEqv
      (Cursor.ofString "\n)(fn\tf[\n1x]y)[\n(:\"a\nb\"\n)c(+2%\n").tokens
      Token.agrees = true := by
    decide +kernel
  exact ⟨agree, alike_ofText agree⟩

end LispFront.Reading
