import LispFront.Text.Position
import Mathlib.Data.Prod.Lex

/-! # The order of places

Places are ordered as they come in a text: by line, and within a line by column. -/

namespace LispFront.Position

private theorem lex_injective :
    Function.Injective fun position :
    Position => toLex (position.line, position.column) := by
  intro left right equal
  rcases Prod.mk.inj (toLex_inj.mp equal) with ⟨line, column⟩
  cases left
  cases right
  cases line
  cases column
  rfl

instance : PartialOrder Position :=
  PartialOrder.lift (fun position => toLex (position.line, position.column)) lex_injective

theorem lt_iff {left right : Position} :
    left < right ↔
      left.line < right.line ∨ left.line = right.line ∧ left.column < right.column :=
  Prod.Lex.toLex_lt_toLex

theorem lt_advance (position : Position) (c : Char) : position < position.advance c := by
  rw [lt_iff, advance]
  split
  · exact .inl (Nat.lt_succ_self _)
  · exact .inr ⟨rfl, Nat.lt_succ_self _⟩

theorem le_after (position : Position) (characters : List Char) :
    position ≤ position.after characters := by
  induction characters generalizing position with
  | nil => exact le_refl position
  | cons c rest induction => exact (lt_advance position c).le.trans (induction _)

theorem lt_after {characters : List Char} (position : Position) (some : characters ≠ []) :
    position < position.after characters := by
  cases characters with
  | nil => exact (some rfl).elim
  | cons c rest => exact (lt_advance position c).trans_le (le_after _ rest)

end LispFront.Position
