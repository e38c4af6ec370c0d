import LispFront.Proofs.Token.Placement
import Mathlib.Data.List.Forall2

/-! # Blanking

A word is blanked when all its characters but its line feeds become spaces. The other
words of the text stay what they are and where they are (`Tokenization.words_blanked`). -/

namespace LispFront

/-! ## Characters -/

/-- A line feed stays, so that all that follows stays in its place. -/
def blank (c : Char) : Char :=
  if c = '\n' then c else ' '

/-- `after` is `before`, or a space in the place of a character that is no line feed. -/
def Blanked (before after : Char) : Prop :=
  after = before ∨ before ≠ '\n' ∧ after = ' '

private theorem blanked_blank (c : Char) : Blanked c (blank c) := by
  by_cases newline : c = '\n'
  · exact .inl (if_pos newline)
  · exact .inr ⟨newline, if_neg newline⟩

private theorem isLayout_blank (c : Char) : isLayout (blank c) = true := by
  by_cases newline : c = '\n'
  · rw [blank, if_pos newline, newline]
    rfl
  · rw [blank, if_neg newline]
    rfl

private theorem forall₂_blanked_self (characters : List Char) :
    List.Forall₂ Blanked characters characters :=
  List.forall₂_same.mpr fun _ _ => .inl rfl

private theorem forall₂_blanked_map (characters : List Char) :
    List.Forall₂ Blanked characters (characters.map blank) :=
  List.forall₂_map_right_iff.mpr (List.forall₂_same.mpr fun c _ => blanked_blank c)

theorem Position.after_map_blank (position : Position) (characters : List Char) :
    position.after (characters.map blank) = position.after characters := by
  induction characters generalizing position with
  | nil => rfl
  | cons c rest induction =>
      have kept : position.advance (blank c) = position.advance c := by
        by_cases newline : c = '\n'
        · rw [blank, if_pos newline]
        · simp [blank, advance, newline]
      rw [List.map_cons, after_cons, after_cons, kept, induction]

namespace Lexeme

theorem Stops.blanked {continues : Char → Bool} {following following' : List Char}
    (stops : Stops continues following)
    (blanked : List.Forall₂ Blanked following following')
    (space : continues ' ' = false) : Stops continues following' := by
  cases blanked with
  | nil => exact stops
  | cons first rest =>
      apply stops_cons
      rcases first with same | ⟨-, blank⟩
      · rw [same]
        exact stops _ rfl
      · rw [blank]
        exact space

theorem Stands.blanked {lexeme : Lexeme} {following following' : List Char}
    (stands : lexeme.Stands following)
    (blanked : List.Forall₂ Blanked following following') :
    lexeme.Stands following' := by
  cases stands with
  | number digit inside stops =>
      exact .number digit inside (stops.blanked blanked (by decide))
  | identifier alphabetic inside stops =>
      exact .identifier alphabetic inside (stops.blanked blanked (by decide))
  | closedString unquoted => exact .closedString unquoted
  | openString unquoted =>
      cases blanked
      exact .openString unquoted
  | symbol symbol => exact .symbol symbol
  | illegal solitary layout symbol => exact .illegal solitary layout symbol

end Lexeme

/-! ## Words -/

namespace Piece

def blankedText (keeps : Token → Bool) (following : List Char) :
    Position → List Piece → List Char
  | _, [] => following
  | position, piece :: pieces =>
      let written := piece.lexeme.written
      piece.layout ++ ((if keeps (piece.token position) then
        written else written.map blank) ++
          blankedText keeps following
            ((position.after piece.layout).after written) pieces)

variable (keeps : Token → Bool)

theorem forall₂_blankedText (following : List Char) (position : Position)
    (pieces : List Piece) :
    List.Forall₂ Blanked (text following pieces)
      (blankedText keeps following position pieces) := by
  induction pieces generalizing position with
  | nil => exact forall₂_blanked_self following
  | cons piece pieces induction =>
      refine List.rel_append (forall₂_blanked_self _) (List.rel_append ?_ (induction _))
      split
      · exact forall₂_blanked_self _
      · exact forall₂_blanked_map _

private theorem words_blankedText {following : List Char} {pieces : List Piece}
    (trailing : IsBlank following) (sound : Sound following pieces)
    (position : Position) :
    Cursor.words ⟨blankedText keeps following position pieces, position⟩ =
      (tokens position pieces).filter keeps := by
  induction pieces generalizing position with
  | nil => exact Cursor.words_eq_nil (List.dropWhile_eq_nil_iff.mpr trailing)
  | cons piece pieces induction =>
      rcases sound with ⟨layout, stands, sound⟩
      let start := (position.after piece.layout).after piece.lexeme.written
      have later := induction sound start
      by_cases kept : keeps (piece.token position) = true
      · have single : Sound (blankedText keeps following start pieces) [piece] :=
          ⟨layout,
            stands.blanked (forall₂_blankedText keeps following start pieces), trivial⟩
        have read := words_text_cons position single
        rw [tokens, List.filter_cons_of_pos kept, blankedText, if_pos kept]
        exact read.trans (congrArg _ later)
      · have spaces : ∀ c ∈ piece.layout ++ piece.lexeme.written.map LispFront.blank,
            isLayout c = true := by
          intro c member
          rcases List.mem_append.mp member with member | member
          · exact layout c member
          · rcases List.mem_map.mp member with ⟨original, -, rfl⟩
            exact isLayout_blank original
        rw [tokens, List.filter_cons_of_neg kept, blankedText, if_neg kept,
          ← List.append_assoc, Cursor.words_append_of_isBlank spaces,
          Position.after_append, Position.after_map_blank]
        exact later

end Piece

namespace Tokenization

variable {source : List Char}

/-- The text without the words that `keeps` does not keep. -/
def blanked (cut : Tokenization source) (keeps : Token → Bool) : List Char :=
  Piece.blankedText keeps cut.trailing .origin cut.pieces

theorem forall₂_blanked (cut : Tokenization source) (keeps : Token → Bool) :
    List.Forall₂ Blanked source (cut.blanked keeps) := by
  have blanked := Piece.forall₂_blankedText keeps cut.trailing .origin cut.pieces
  rwa [cut.text_eq] at blanked

/-- What is kept is read where it was, and nothing else. -/
theorem words_blanked (cut : Tokenization source) (keeps : Token → Bool) :
    Cursor.words ⟨cut.blanked keeps, .origin⟩ =
      (Cursor.words ⟨source, .origin⟩).filter keeps := by
  rw [cut.words_eq]
  exact Piece.words_blankedText keeps cut.blank cut.sound .origin

end Tokenization

end LispFront
