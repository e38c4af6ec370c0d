import LispFront.Proofs.Token.Lexeme
import LispFront.Token.Cursor

/-! # The words of a text

The tokens of a text are its words, of which none is the end of input, and after them the
end of input once. Where a word begins, the scan of a lexeme tells it. -/

namespace LispFront.Cursor

def words (cursor : Cursor) : List Token :=
  cursor.tokens.dropLast

theorem isLayout_eq_false_of_rest_skipLayout {cursor : Cursor} {first : Char}
    {rest : List Char} (begins : cursor.skipLayout.rest = first :: rest) :
    isLayout first = false := by
  have stops := Lexeme.stops_dropWhile isLayout cursor.rest
  simp only [skipLayout] at begins
  rw [begins] at stops
  exact stops first rfl

theorem kind_next_ne_endOfInput {cursor : Cursor} {first : Char} {rest : List Char}
    (begins : cursor.skipLayout.rest = first :: rest) :
    cursor.next.1.kind ≠ .endOfInput := by
  rw [next_of_rest_skipLayout_eq_cons begins]
  exact Lexeme.kind_scan_ne_endOfInput first rest

theorem rest_skipLayout_eq_nil {cursor : Cursor}
    (ended : cursor.next.1.kind = .endOfInput) : cursor.skipLayout.rest = [] := by
  cases begins : cursor.skipLayout.rest with
  | nil => rfl
  | cons first rest => exact absurd ended (kind_next_ne_endOfInput begins)

theorem induction {motive : Cursor → Prop}
    (ended : ∀ cursor : Cursor, cursor.skipLayout.rest = [] → motive cursor)
    (more : ∀ (cursor : Cursor) (first : Char) (rest : List Char),
      cursor.skipLayout.rest = first :: rest → motive cursor.next.2 → motive cursor)
    (cursor : Cursor) : motive cursor := by
  cases begins : cursor.skipLayout.rest with
  | nil => exact ended cursor begins
  | cons first rest =>
      have shorter : cursor.next.2.rest.length < cursor.rest.length :=
        length_rest_lt_of_next rfl (kind_next_ne_endOfInput begins)
      exact more cursor first rest begins (induction ended more cursor.next.2)
termination_by cursor.rest.length

private theorem tokens_ne_nil (cursor : Cursor) : cursor.tokens ≠ [] := by
  rw [tokens_eq]
  split <;> simp

theorem words_eq_nil {cursor : Cursor} (nothing : cursor.skipLayout.rest = []) :
    cursor.words = [] := by
  rw [words, tokens_eq, next_of_rest_skipLayout_eq_nil nothing]
  rfl

theorem words_eq_cons {cursor : Cursor} {first : Char} {rest : List Char}
    (begins : cursor.skipLayout.rest = first :: rest) :
    cursor.words = cursor.next.1 :: cursor.next.2.words := by
  rw [words, tokens_eq, if_neg (kind_next_ne_endOfInput begins),
    List.dropLast_cons_of_ne_nil (tokens_ne_nil _)]
  rfl

theorem words_eq_nil_of_kind {cursor : Cursor}
    (ended : cursor.next.1.kind = .endOfInput) : cursor.words = [] :=
  words_eq_nil (rest_skipLayout_eq_nil ended)

theorem words_eq_cons_of_kind {cursor : Cursor}
    (more : cursor.next.1.kind ≠ .endOfInput) :
    cursor.words = cursor.next.1 :: cursor.next.2.words := by
  cases begins : cursor.skipLayout.rest with
  | nil => exact absurd (by rw [next_of_rest_skipLayout_eq_nil begins]) more
  | cons first rest => exact words_eq_cons begins

theorem words_append_of_isBlank {layout text : List Char} {position : Position}
    (blank : ∀ c ∈ layout, isLayout c = true) :
    words ⟨layout ++ text, position⟩ = words ⟨text, position.after layout⟩ := by
  have skipped : skipLayout ⟨layout ++ text, position⟩ =
      skipLayout ⟨text, position.after layout⟩ := by
    simp only [skipLayout, List.dropWhile_append_of_pos blank,
      List.takeWhile_append_of_pos blank, Position.after_append]
  have read : next ⟨layout ++ text, position⟩ = next ⟨text, position.after layout⟩ := by
    simp only [next, skipped]
  rw [words, words, tokens_eq, tokens_eq ⟨text, position.after layout⟩, read]

/-! ## The end of the text -/

theorem exhausted_skipLayout (cursor : Cursor) :
    cursor.skipLayout.exhausted = cursor.exhausted := by
  simp only [exhausted, skipLayout, ← Position.after_append,
    List.takeWhile_append_dropWhile]

private theorem skipLayout_eq_exhausted {cursor : Cursor}
    (nothing : cursor.skipLayout.rest = []) : cursor.skipLayout = cursor.exhausted := by
  rw [← exhausted_skipLayout, exhausted, nothing, Position.after_nil, ← nothing]

theorem exhausted_next (cursor : Cursor) :
    cursor.next.2.exhausted = cursor.exhausted := by
  rw [← exhausted_skipLayout cursor]
  cases begins : cursor.skipLayout.rest with
  | nil =>
      rw [next_of_rest_skipLayout_eq_nil begins]
  | cons first rest =>
      rw [next_of_rest_skipLayout_eq_cons begins]
      simp only [exhausted, begins, ← Position.after_append,
        Lexeme.written_append_snd_scan]

theorem next_eq_exhausted {cursor : Cursor} (nothing : cursor.skipLayout.rest = []) :
    cursor.next = (⟨.endOfInput, "", cursor.exhausted.position⟩, cursor.exhausted) := by
  rw [next_of_rest_skipLayout_eq_nil nothing, skipLayout_eq_exhausted nothing]

theorem words_next (cursor : Cursor) : cursor.next.2.words = cursor.words.tail := by
  cases begins : cursor.skipLayout.rest with
  | nil =>
      rw [words_eq_nil begins, next_eq_exhausted begins]
      exact words_eq_nil rfl
  | cons first rest =>
      rw [words_eq_cons begins, List.tail_cons]

theorem tokens_eq_words_append (cursor : Cursor) :
    cursor.tokens = cursor.words ++ [⟨.endOfInput, "", cursor.exhausted.position⟩] := by
  induction cursor using Cursor.induction with
  | ended cursor nothing =>
      rw [words_eq_nil nothing, tokens_eq, next_eq_exhausted nothing]
      rfl
  | more cursor first rest begins induction =>
      rw [words_eq_cons begins, tokens_eq,
        if_neg (kind_next_ne_endOfInput begins), induction, exhausted_next]
      rfl

end LispFront.Cursor
