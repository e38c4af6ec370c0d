import LispFront.Proofs.Text.Order
import LispFront.Proofs.Token.Tokenization

/-! # The places of words

Words stand one behind the other (`Cursor.pairwise_words`), so that no two of them stand
in the same place, and the end of the input stands behind them all. -/

namespace LispFront

namespace Lexeme

theorem Stands.written_ne_nil {lexeme : Lexeme} {following : List Char}
    (stands : lexeme.Stands following) : lexeme.written ≠ [] := by
  rcases stands.exists_written_eq_cons with ⟨first, run, written, -⟩
  simp [written]

end Lexeme

namespace Piece

private theorem le_position_token (position : Position) (piece : Piece) :
    position ≤ (piece.token position).position :=
  Position.le_after position piece.layout

theorem le_position_of_mem_tokens {position : Position} {pieces : List Piece}
    {token : Token} (member : token ∈ tokens position pieces) :
    position ≤ token.position := by
  induction pieces generalizing position with
  | nil => cases member
  | cons piece pieces induction =>
      have first := piece.le_position_token position
      rcases List.mem_cons.mp member with rfl | member
      · exact first
      · exact (first.trans (Position.le_after _ _)).trans (induction member)

theorem Sound.position_lt_of_mem_tokens {following : List Char} {pieces : List Piece}
    (sound : Sound following pieces) {position : Position} {token : Token}
    (member : token ∈ tokens position pieces) :
    token.position < position.after (text following pieces) := by
  induction pieces generalizing position with
  | nil => cases member
  | cons piece pieces induction =>
      rw [text, Position.after_append, Position.after_append]
      rcases List.mem_cons.mp member with rfl | member
      · exact (Position.lt_after _ sound.2.1.written_ne_nil).trans_le
          (Position.le_after _ _)
      · exact induction sound.2.2 member

theorem Sound.pairwise_tokens {following : List Char} {pieces : List Piece}
    (sound : Sound following pieces) (position : Position) :
    (tokens position pieces).Pairwise fun left right => left.position <
      right.position := by
  induction pieces generalizing position with
  | nil => exact .nil
  | cons piece pieces induction =>
      refine .cons (fun token member => ?_) (induction sound.2.2 _)
      exact (Position.lt_after _ sound.2.1.written_ne_nil).trans_le
        (le_position_of_mem_tokens member)

end Piece

namespace Cursor

theorem pairwise_words (cursor : Cursor) :
    cursor.words.Pairwise fun left right => left.position < right.position := by
  rcases Tokenization.exists_tokenization cursor.rest with ⟨cut⟩
  rw [cut.words_eq]
  exact cut.sound.pairwise_tokens cursor.position

theorem pairwise_tokens (cursor : Cursor) :
    cursor.tokens.Pairwise fun left right => left.position < right.position := by
  rcases Tokenization.exists_tokenization cursor.rest with ⟨cut⟩
  rw [tokens_eq_words_append, List.pairwise_append]
  refine ⟨cursor.pairwise_words, List.pairwise_singleton _ _,
    fun word member ending last => ?_⟩
  rw [cut.words_eq] at member
  have before := cut.sound.position_lt_of_mem_tokens member
  rw [cut.text_eq] at before
  rw [List.mem_singleton.mp last]
  exact before

theorem nodup_position_words (cursor : Cursor) :
    (cursor.words.map Token.position).Nodup :=
  List.pairwise_map.mpr (cursor.pairwise_words.imp fun before => before.ne)

theorem nodup_words (cursor : Cursor) : cursor.words.Nodup :=
  cursor.pairwise_words.imp fun before same => before.ne (congrArg Token.position same)

end Cursor

end LispFront
