import LispFront.Proofs.Relocation
import LispFront.Proofs.Token.Tokenization

/-! # Juxtaposed texts

Where a text ends and no lexeme runs on into the next text, the words of both together are
the words of the one and then the words of the other, moved to where it stands
(`Cursor.words_append`, `Cursor.words_move`). An even number of quotes tells that no
string is left open. -/

namespace LispFront

theorem Position.after_move {move : Position → Position}
    (moves : ∀ position c, (move position).advance c = move (position.advance c))
    (position : Position) (characters : List Char) :
    (move position).after characters = move (position.after characters) := by
  induction characters generalizing position with
  | nil => rfl
  | cons c rest induction =>
      rw [Position.after_cons, moves, induction, Position.after_cons]

namespace Lexeme

/-- A run that ends with its text does not go on in `more`. -/
structure Halts (lexeme : Lexeme) (more : List Char) : Prop where
  number : lexeme.kind = .number → Stops continuesNumber more
  identifier : lexeme.kind = .identifier → Stops isAlphabetic more

theorem Stops.append {continues : Char → Bool} {following more : List Char}
    (stops : Stops continues following) (halts : following = [] → Stops continues more) :
    Stops continues (following ++ more) := by
  cases following with
  | nil => exact halts rfl
  | cons c rest => exact stops_cons _ (stops c rfl)

theorem count_quote_of_forall {run : List Char} {continues : Char → Bool}
    (inside : ∀ c ∈ run, continues c = true) (quote : continues '"' = false) :
    run.count '"' = 0 := by
  rw [List.count_eq_zero]
  intro member
  simp [inside _ member] at quote

theorem Stands.count_quote {lexeme : Lexeme} {following : List Char}
    (stands : lexeme.Stands following) :
    lexeme.written.count '"' % 2 = 0 ∨ lexeme.written.count '"' = 1 ∧ following = [] := by
  cases stands with
  | @number first run _ digit inside stops =>
      left
      have quote : first ≠ '"' := by
        rintro rfl
        exact absurd digit (by decide)
      rw [List.count_cons_of_ne quote, count_quote_of_forall inside (by decide)]
  | identifier alphabetic inside stops =>
      left
      have quote := ne_quote_of_isAlphabetic alphabetic
      rw [List.count_cons_of_ne quote, count_quote_of_forall inside (by decide)]
  | closedString unquoted =>
      left
      simp [List.count_eq_zero.mpr unquoted]
  | openString unquoted =>
      right
      simp [List.count_eq_zero.mpr unquoted]
  | symbol symbol =>
      left
      simp [(isSolitary_of_ofSymbol? symbol).quote]
  | illegal solitary layout symbol =>
      left
      simp [solitary.quote]

theorem Stands.append {lexeme : Lexeme} {following more : List Char}
    (stands : lexeme.Stands following) (closed : lexeme.written.count '"' % 2 = 0)
    (halts : following = [] → lexeme.Halts more) :
    lexeme.Stands (following ++ more) := by
  cases stands with
  | number digit inside stops =>
      exact .number digit inside (stops.append fun ended => (halts ended).number rfl)
  | identifier alphabetic inside stops =>
      exact .identifier alphabetic inside
        (stops.append fun ended => (halts ended).identifier rfl)
  | closedString unquoted => exact .closedString unquoted
  | openString unquoted => simp [List.count_eq_zero.mpr unquoted] at closed
  | symbol symbol => exact .symbol symbol
  | illegal solitary layout symbol => exact .illegal solitary layout symbol

end Lexeme

namespace Piece

private theorem count_quote_of_isBlank {layout : List Char} (blank : IsBlank layout) :
    layout.count '"' = 0 :=
  Lexeme.count_quote_of_forall blank (by decide)

theorem Sound.append {following more : List Char} {pieces : List Piece}
    (sound : Sound following pieces) (even : (text following pieces).count '"' % 2 = 0)
    (halts : ∀ piece ∈ pieces.getLast?, following = [] → piece.lexeme.Halts more) :
    Sound (following ++ more) pieces := by
  induction pieces with
  | nil => trivial
  | cons piece pieces induction =>
      rcases sound with ⟨blank, stands, sound⟩
      rw [text, List.count_append, List.count_append,
        count_quote_of_isBlank blank] at even
      have closed : piece.lexeme.written.count '"' % 2 = 0 := by
        rcases stands.count_quote with closed | ⟨single, ended⟩
        · exact closed
        · rw [single, ended] at even
          simp at even
      refine ⟨blank, ?_, induction sound (by omega) ?_⟩
      · rw [text_append]
        refine stands.append closed fun ended => ?_
        cases pieces with
        | nil => exact halts piece rfl ended
        | cons next pieces =>
            rcases sound.2.1.exists_written_eq_cons with ⟨first, run, written, -⟩
            simp [text, written] at ended
      · intro last member
        apply halts
        rw [List.getLast?_cons, Option.mem_def.mp member]
        rfl

private theorem tokens_move {move : Position → Position} {position : Position}
    (moves : ∀ characters,
      (move position).after characters = move (position.after characters))
    (pieces : List Piece) :
    tokens (move position) pieces =
      (tokens position pieces).map (Token.relocate move) := by
  induction pieces generalizing position with
  | nil => rfl
  | cons piece pieces induction =>
      let stop := (position.after piece.layout).after piece.lexeme.written
      have passed : move stop =
          ((move position).after piece.layout).after piece.lexeme.written := by
        rw [← Position.after_append, moves, Position.after_append]
      have movesLater (characters : List Char) : (move stop).after characters =
          move (stop.after characters) := by
        rw [passed, ← Position.after_append, ← Position.after_append, moves,
          Position.after_append, Position.after_append]
      rw [tokens, tokens, List.map_cons, ← induction movesLater, passed,
        token, token, moves]
      rfl

end Piece

namespace Cursor

theorem words_append {first second : List Char} (cut : Tokenization first)
    (position : Position) (even : first.count '"' % 2 = 0)
    (halts : ∀ piece ∈ cut.pieces.getLast?, cut.trailing = [] →
      piece.lexeme.Halts second) :
    words ⟨first ++ second, position⟩ =
      words ⟨first, position⟩ ++ words ⟨second, position.after first⟩ := by
  rw [← cut.text_eq] at even
  have sound := cut.sound.append even halts
  have trailing : position.after first =
      (position.after (Piece.text [] cut.pieces)).after cut.trailing := by
    rw [← Position.after_append, ← Piece.text_append, List.nil_append, cut.text_eq]
  rw [cut.words_eq, trailing, ← words_append_of_isBlank cut.blank,
    ← Piece.words_text _ sound, Piece.text_append, cut.text_eq]

theorem words_move {move : Position → Position} {position : Position}
    (moves : ∀ characters,
      (move position).after characters = move (position.after characters))
    (text : List Char) :
    words ⟨text, move position⟩ = (words ⟨text, position⟩).map (Token.relocate move) := by
  rcases Tokenization.exists_tokenization text with ⟨cut⟩
  rw [cut.words_eq, cut.words_eq, Piece.tokens_move moves]

end Cursor

end LispFront
