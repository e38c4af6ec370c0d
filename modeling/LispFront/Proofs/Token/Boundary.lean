import LispFront.Proofs.Token.Arrangement
import LispFront.Proofs.Token.Indices
import LispFront.Proofs.Token.Juxtaposition

/-! # Texts put together

Two texts with layout between them, of which the first leaves no string open, are read one
after the other. With no layout between them this is so too, unless the second text begins
with a character that the last word of the first could still take up; and in that case it
is not so (`Cursor.tokens_append_iff`). -/

namespace LispFront

/-! ## Words that could go on -/

/-- Whether a token of this kind takes up the character that follows it. A string takes up
any until its quote, but it does not end before that. -/
def TokenKind.continues : TokenKind → Char → Bool
  | number => Lexeme.continuesNumber
  | identifier => isAlphabetic
  | _ => fun _ => false

namespace Lexeme

variable {lexeme : Lexeme} {following : List Char}

theorem Stands.stops (stands : lexeme.Stands following) :
    Stops lexeme.kind.continues following := by
  cases stands with
  | number digit inside stops => exact stops
  | identifier alphabetic inside stops => exact stops
  | closedString => exact fun _ _ => rfl
  | openString => exact fun _ _ => rfl
  | @symbol c kind following symbol =>
      rcases isSymbol_of_ofSymbol? symbol with ⟨number, identifier, -, -⟩
      intro next _
      cases kind <;> first | rfl | contradiction
  | illegal => exact fun _ _ => rfl

theorem Stands.written_eq_text (stands : lexeme.Stands following) {c : Char}
    (continues : lexeme.kind.continues c = true) : lexeme.written = lexeme.text := by
  cases stands with
  | number => rfl
  | identifier => rfl
  | closedString => cases continues
  | openString => cases continues
  | symbol => rfl
  | illegal => rfl

theorem halts_of_beginsBlank (blank : BeginsBlank following) : lexeme.Halts following :=
  ⟨fun _ => blank.stops_number, fun _ => blank.stops_identifier⟩

private theorem halts_of_stops (stops : Stops lexeme.kind.continues following) :
    lexeme.Halts following := by
  constructor
  · intro kind
    rwa [kind] at stops
  · intro kind
    rwa [kind] at stops

end Lexeme

/-- The last word of `first` ends with it, and goes on in `second`. -/
def RunsOn (first second : String) : Prop :=
  ∃ word ∈ (Cursor.ofString first).words.getLast?,
    word.position.after word.text.toList = (Cursor.ofString first).exhausted.position ∧
      ∃ c ∈ second.toList.head?, word.kind.continues c = true

namespace Piece

theorem exists_getLast?_tokens {pieces : List Piece} {last : Piece}
    (member : last ∈ pieces.getLast?) (position : Position) :
    ∃ word ∈ (tokens position pieces).getLast?, word.symbol = last.lexeme.symbol ∧
      word.position.after last.lexeme.written = position.after (text [] pieces) := by
  induction pieces generalizing position with
  | nil => cases member
  | cons piece pieces induction =>
      cases pieces with
      | nil =>
          cases member
          refine ⟨piece.token position, rfl, rfl, ?_⟩
          rw [text, text, List.append_nil, Position.after_append]
          rfl
      | cons next pieces =>
          rw [List.getLast?_cons_cons] at member
          rcases induction member
            ((position.after piece.layout).after piece.lexeme.written) with
            ⟨word, listed, symbol, ends⟩
          refine ⟨word, ?_, symbol, ?_⟩
          · rw [tokens, tokens, List.getLast?_cons_cons]
            exact listed
          · rw [text, Position.after_append, Position.after_append]
            exact ends

end Piece

namespace Cursor

/-! ## Texts that are read one after the other -/

theorem words_append_layout {first layout second : List Char} (cut : Tokenization first)
    (blank : Piece.IsBlank layout) (even : first.count '"' % 2 = 0)
    (halts : ∀ piece ∈ cut.pieces.getLast?, cut.trailing = [] →
      piece.lexeme.Halts (layout ++ second)) :
    words ⟨first ++ (layout ++ second), .origin⟩ =
      words ⟨first, .origin⟩ ++
        (words ⟨second, .origin⟩).map (Token.relocate (.displace (first ++ layout))) := by
  have start : Position.origin.after (first ++ layout) =
      .displace (first ++ layout) .origin := by
    rw [← Position.after_nil .origin, Position.displace_after, List.append_nil]
    rfl
  have moves (characters : List Char) :
      (Position.displace (first ++ layout) .origin).after characters =
        .displace (first ++ layout) (Position.origin.after characters) := by
    rw [← start, Position.displace_after, ← Position.after_append]
  rw [words_append cut .origin even halts, words_append_of_isBlank blank,
    ← Position.after_append, start, words_move moves]

private theorem tokens_append_layout {first layout second : List Char}
    (cut : Tokenization first) (blank : Piece.IsBlank layout)
    (even : first.count '"' % 2 = 0)
    (halts : ∀ piece ∈ cut.pieces.getLast?, cut.trailing = [] →
      piece.lexeme.Halts (layout ++ second)) :
    tokens ⟨first ++ (layout ++ second), .origin⟩ =
      words ⟨first, .origin⟩ ++
        (tokens ⟨second, .origin⟩).map
          (Token.relocate (.displace (first ++ layout))) := by
  have final : Position.origin.after (first ++ (layout ++ second)) =
      .displace (first ++ layout) (Position.origin.after second) := by
    rw [Position.displace_after, List.append_assoc]
  rw [tokens_eq_words_append, words_append_layout cut blank even halts,
    tokens_eq_words_append ⟨second, _⟩, List.map_append, List.append_assoc]
  simp only [exhausted, final]
  rfl

private theorem halts_of_not_runsOn {first second : String}
    (cut : Tokenization first.toList) (apart : ¬RunsOn first second) {piece : Piece}
    (last : piece ∈ cut.pieces.getLast?)
    (whole : cut.trailing = []) : piece.lexeme.Halts second.toList := by
  have spelled : Piece.text [] cut.pieces = first.toList := whole ▸ cut.text_eq
  apply Lexeme.halts_of_stops
  intro c begins
  by_contra continues
  rw [Bool.not_eq_false] at continues
  apply apart
  rcases Piece.exists_getLast?_tokens last .origin with ⟨word, listed, symbol, ends⟩
  rcases Prod.mk.inj symbol with ⟨kind, text⟩
  rcases cut.sound.exists_stands piece (List.mem_of_getLast? last) with
    ⟨following, stands⟩
  refine ⟨word, ?_, ?_, c, begins, ?_⟩
  · rw [ofString, cut.words_eq]
    exact listed
  · rw [text, String.toList_ofList, ← stands.written_eq_text continues, ends, spelled]
    rfl
  · rw [kind]
    exact continues

/-! ## Texts that are not -/

theorem stops_of_mem_tokens {front rest : List Char} {word : Token}
    (member : word ∈ tokens ⟨front ++ rest, .origin⟩)
    (ends : word.position.after word.text.toList = Position.origin.after front) :
    Lexeme.Stops word.kind.continues rest := by
  intro c begins
  by_contra continues
  rw [Bool.not_eq_false] at continues
  have more : word.kind ≠ .endOfInput := by
    intro ended
    rw [ended] at continues
    cases continues
  rcases exists_written member more with
    ⟨lexeme, before, following, symbol, fits, whole, place⟩
  rcases Prod.mk.inj symbol with ⟨kind, text⟩
  rw [← kind] at continues
  rw [← text, String.toList_ofList, ← fits.written_eq_text continues, place,
    ← Position.after_append] at ends
  rw [← List.append_assoc] at whole
  rw [← Position.eq_of_after_eq whole.symm ends, List.append_cancel_left_eq] at whole
  have stops := fits.stops c (whole ▸ begins)
  rw [continues] at stops
  cases stops

/-- Two texts with layout between them are read one after the other if and only if there
is some layout, or the last word of the first does not go on in the second. -/
theorem tokens_append_iff (first layout second : String)
    (blank : ∀ c ∈ layout.toList, isLayout c = true)
    (even : first.toList.count '"' % 2 = 0) :
    (ofString (first ++ layout ++ second)).tokens =
        (ofString first).tokens.dropLast ++
          (ofString second).tokens.map
            (Token.relocate (.displace (first ++ layout).toList)) ↔
      layout ≠ "" ∨ ¬RunsOn first second := by
  have whole : ofString (first ++ layout ++ second) =
      ⟨first.toList ++ (layout.toList ++ second.toList), .origin⟩ := by
    simp [ofString]
  constructor
  · intro same
    by_contra merged
    simp only [not_or, not_not] at merged
    rcases merged with ⟨rfl, word, listed, ends, c, begins, continues⟩
    have member : word ∈ tokens ⟨first.toList ++ second.toList, .origin⟩ := by
      rw [whole] at same
      exact same ▸ List.mem_append_left _ (List.mem_of_getLast? listed)
    have stops := stops_of_mem_tokens member ends c begins
    rw [continues] at stops
    cases stops
  · intro apart
    rcases Tokenization.exists_tokenization first.toList with ⟨cut⟩
    have halts : ∀ piece ∈ cut.pieces.getLast?, cut.trailing = [] →
        piece.lexeme.Halts (layout.toList ++ second.toList) := by
      intro piece last closed
      rcases begins : layout.toList with _ | ⟨c, rest⟩
      · have none : layout = "" := by simpa using begins
        exact halts_of_not_runsOn cut
          (apart.resolve_left (not_not_intro none)) last closed
      · apply Lexeme.halts_of_beginsBlank
        have layout := blank c (begins ▸ List.mem_cons_self)
        simpa [BeginsBlank] using layout
    rw [whole, tokens_append_layout cut blank even halts, ← String.toList_append]
    rfl

theorem tokens_append_iff_of_number :
    (∀ c ∈ "\t\n ".toList, isLayout c = true) ∧ "[\"a\nb\" 1.".toList.count '"' % 2 = 0 ∧
      (ofString ("[\"a\nb\" 1." ++ "\t\n " ++ ".5 x\n]")).tokens =
        (ofString "[\"a\nb\" 1.").tokens.dropLast ++
          (ofString ".5 x\n]").tokens.map
            (Token.relocate (.displace ("[\"a\nb\" 1." ++ "\t\n ").toList)) ∧
      (ofString ("[\"a\nb\" 1." ++ "" ++ ".5 x\n]")).tokens ≠
        (ofString "[\"a\nb\" 1.").tokens.dropLast ++
          (ofString ".5 x\n]").tokens.map
            (Token.relocate (.displace ("[\"a\nb\" 1." ++ "").toList)) := by
  have blank : ∀ c ∈ "\t\n ".toList, isLayout c = true := List.all_eq_true.mp (by decide)
  have even : "[\"a\nb\" 1.".toList.count '"' % 2 = 0 := by decide
  have runsOn : RunsOn "[\"a\nb\" 1." ".5 x\n]" :=
    ⟨⟨.number, "1.", ⟨2, 4⟩⟩, by decide +kernel, by decide +kernel,
      '.', by decide, by decide⟩
  have spaced := tokens_append_iff "[\"a\nb\" 1." "\t\n " ".5 x\n]" blank even
  have merged := tokens_append_iff "[\"a\nb\" 1." "" ".5 x\n]" nofun even
  refine ⟨blank, even, spaced.mpr (.inl (by decide)), fun same => ?_⟩
  exact (merged.mp same).elim (· rfl) (· runsOn)

end Cursor

end LispFront
