import LispFront.Proofs.Token.Blanking

/-! # Spaces in given places

A space may be put in any place of a text without a look at the words. Where only words of
one character stand in the given places, those are the words that are blanked
(`Cursor.words_spaceAt`). -/

namespace LispFront

/-- The text with a space in each of `places`. -/
def spaceAt (places : List Position) : Position → List Char → List Char
  | _, [] => []
  | position, c :: rest =>
      (if position ∈ places then ' ' else c) :: spaceAt places (position.advance c) rest

def TokenKind.isSingle : TokenKind → Bool
  | number | identifier | string | endOfInput => false
  | _ => true

theorem Lexeme.Stands.exists_written_eq_singleton {lexeme : Lexeme}
    {following : List Char} (stands : lexeme.Stands following)
    (single : lexeme.kind.isSingle = true) :
    ∃ c, lexeme.written = [c] ∧ c ≠ '\n' := by
  rcases stands.exists_written_eq_cons with ⟨first, run, written, layout⟩
  have newline : first ≠ '\n' := by
    rintro rfl
    cases layout
  cases stands with
  | number => cases single
  | identifier => cases single
  | closedString => cases single
  | openString => cases single
  | symbol => cases written; exact ⟨_, rfl, newline⟩
  | illegal => cases written; exact ⟨_, rfl, newline⟩

section

variable {places : List Position} {position : Position}

private theorem spaceAt_append (places : List Position) (position : Position)
    (first second : List Char) :
    spaceAt places position (first ++ second) =
      spaceAt places position first ++ spaceAt places (position.after first) second := by
  induction first generalizing position with
  | nil => rfl
  | cons c rest induction =>
      rw [List.cons_append, spaceAt, induction]
      rfl

theorem spaceAt_eq_self {characters : List Char}
    (outside : ∀ place ∈ places, place < position ∨ position.after characters ≤ place) :
    spaceAt places position characters = characters := by
  induction characters generalizing position with
  | nil => rfl
  | cons c rest induction =>
      have next := Position.lt_advance position c
      have elsewhere : position ∉ places := by
        intro member
        rcases outside position member with before | behind
        · exact lt_irrefl _ before
        · exact lt_irrefl _ ((next.trans_le (Position.le_after _ rest)).trans_le behind)
      have later := induction fun place member =>
        (outside place member).imp (fun before => before.trans next) id
      rw [spaceAt, if_neg elsewhere, later]

private theorem spaceAt_singleton {c : Char} (newline : c ≠ '\n')
    (member : position ∈ places) : spaceAt places position [c] = [c].map blank := by
  rw [spaceAt, if_pos member, spaceAt, List.map_singleton, blank, if_neg newline]

theorem Lexeme.Stands.spaceAt_written {lexeme : Lexeme} {following : List Char}
    (stands : lexeme.Stands following)
    (apart : ∀ place ∈ places,
      place < position ∨ position = place ∨ position.after lexeme.written ≤ place)
    (single : position ∈ places → lexeme.kind.isSingle = true) :
    spaceAt places position lexeme.written =
      if position ∉ places then lexeme.written else lexeme.written.map blank := by
  by_cases member : position ∈ places
  · rcases stands.exists_written_eq_singleton (single member) with ⟨c, written, newline⟩
    rw [if_neg (not_not_intro member), written, spaceAt_singleton newline member]
  · rw [if_pos member]
    refine spaceAt_eq_self fun place inside => ?_
    rcases apart place inside with before | rfl | behind
    · exact .inl before
    · exact (member inside).elim
    · exact .inr behind

theorem Piece.spaceAt_text {following : List Char} {pieces : List Piece}
    (sound : Sound following pieces)
    (placed : ∀ place ∈ places, place < position ∨ ∃ token ∈ tokens position pieces,
      token.position = place)
    (single : ∀ token ∈ tokens position pieces, token.position ∈ places →
      token.kind.isSingle = true) :
    spaceAt places position (text following pieces) =
      blankedText (fun token => token.position ∉ places) following position pieces := by
  induction pieces generalizing position with
  | nil =>
      apply spaceAt_eq_self
      intro place member
      rcases placed place member with before | ⟨token, none, -⟩
      · exact .inl before
      · cases none
  | cons piece pieces induction =>
      rcases sound with ⟨layout, stands, sound⟩
      let start := position.after piece.layout
      let stop := start.after piece.lexeme.written
      have forward : position ≤ start := Position.le_after position piece.layout
      have onward : start < stop := Position.lt_after start stands.written_ne_nil
      have parts : ∀ place ∈ places, place < position ∨ start = place ∨
          ∃ token ∈ tokens stop pieces, token.position = place := by
        intro place member
        rcases placed place member with before | ⟨token, listed, equal⟩
        · exact .inl before
        · rcases List.mem_cons.mp listed with rfl | listed
          · exact .inr (.inl equal)
          · exact .inr (.inr ⟨token, listed, equal⟩)
      have apart : ∀ place ∈ places, place < position ∨ start = place ∨ stop ≤ place := by
        intro place member
        refine (parts place member).imp_right (Or.imp_right ?_)
        rintro ⟨token, listed, rfl⟩
        exact le_position_of_mem_tokens listed
      have front : spaceAt places position piece.layout = piece.layout :=
        spaceAt_eq_self fun place member =>
          (apart place member).imp_right (Or.rec Eq.le onward.le.trans)
      have middle := stands.spaceAt_written
        (fun place member => (apart place member).imp_left fun before =>
          before.trans_le forward)
        (single _ List.mem_cons_self)
      have later : ∀ place ∈ places, place < stop ∨
          ∃ token ∈ tokens stop pieces, token.position = place := fun place member =>
        (parts place member).elim
          (fun before => .inl ((before.trans_le forward).trans onward))
          (Or.imp_left fun equal => equal.symm.trans_lt onward)
      have rest := induction sound later fun token listed =>
        single token (List.mem_cons_of_mem _ listed)
      rw [text, spaceAt_append, spaceAt_append, front, middle, rest, blankedText]
      simp only [decide_eq_true_eq]
      rfl

end

/-- A text with spaces in the places of single characters is read without these words. -/
theorem Cursor.words_spaceAt {places : List Position} {text : List Char}
    (placed : ∀ place ∈ places, ∃ word ∈ words ⟨text, .origin⟩, word.position = place)
    (single : ∀ word ∈ words ⟨text, .origin⟩, word.position ∈ places →
      word.kind.isSingle = true) :
    words ⟨spaceAt places .origin text, .origin⟩ =
      (words ⟨text, .origin⟩).filter fun word => word.position ∉ places := by
  rcases Tokenization.exists_tokenization text with ⟨cut⟩
  rw [← cut.words_blanked, Tokenization.blanked]
  rw [cut.words_eq] at placed single
  have spaced :=
    Piece.spaceAt_text cut.sound (fun place member => .inr (placed place member)) single
  rw [cut.text_eq] at spaced
  rw [spaced]

end LispFront
