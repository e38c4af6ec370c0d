import LispFront.Proofs.Token.Words

/-! # Tokenizations

A text is cut into lexemes with layout before, between and after them, and nothing else.
There is one way to do so (`Tokenization.unique`), and the words of the text are its
lexemes in order (`Tokenization.words_eq`). -/

namespace LispFront

/-- What a token says apart from its place. -/
def Token.symbol (token : Token) : TokenKind × String :=
  (token.kind, token.text)

def Lexeme.symbol (lexeme : Lexeme) : TokenKind × String :=
  (lexeme.kind, String.ofList lexeme.text)

/-- A lexeme with the layout in front of it. -/
structure Piece where
  layout : List Char
  lexeme : Lexeme

namespace Piece

def IsBlank (characters : List Char) : Prop :=
  ∀ c ∈ characters, isLayout c = true

def text (following : List Char) : List Piece → List Char
  | [] => following
  | piece :: pieces => piece.layout ++ (piece.lexeme.written ++ text following pieces)

/-- What is called layout is layout, and each lexeme may stand where it stands. -/
def Sound (following : List Char) : List Piece → Prop
  | [] => True
  | piece :: pieces =>
      IsBlank piece.layout ∧ piece.lexeme.Stands (text following pieces) ∧
        Sound following pieces

def token (position : Position) (piece : Piece) : Token :=
  ⟨piece.lexeme.kind, String.ofList piece.lexeme.text, position.after piece.layout⟩

def tokens (position : Position) : List Piece → List Token
  | [] => []
  | piece :: pieces =>
      piece.token position ::
        tokens ((position.after piece.layout).after piece.lexeme.written) pieces

theorem text_append (pieces : List Piece) (following more : List Char) :
    text (following ++ more) pieces = text following pieces ++ more := by
  induction pieces with
  | nil => rfl
  | cons piece pieces induction => simp only [text, induction, List.append_assoc]

theorem map_symbol_tokens (position : Position) (pieces : List Piece) :
    (tokens position pieces).map Token.symbol =
      pieces.map fun piece => piece.lexeme.symbol := by
  induction pieces generalizing position with
  | nil => rfl
  | cons piece pieces induction =>
      rw [tokens, List.map_cons, induction]
      rfl

/-! ## Pieces and the scan -/

theorem stops_isLayout {lexeme : Lexeme} {following : List Char}
    (stands : lexeme.Stands following) :
    Lexeme.Stops isLayout (lexeme.written ++ following) := by
  rcases stands.exists_written_eq_cons with ⟨first, run, written, notLayout⟩
  rw [written]
  exact Lexeme.stops_cons _ notLayout

section

variable {following : List Char} {piece : Piece} {pieces : List Piece}

theorem Sound.takeWhile_text (sound : Sound following (piece :: pieces)) :
    (text following (piece :: pieces)).takeWhile isLayout = piece.layout :=
  Lexeme.Stops.takeWhile_append sound.1 (stops_isLayout sound.2.1)

theorem Sound.dropWhile_text (sound : Sound following (piece :: pieces)) :
    (text following (piece :: pieces)).dropWhile isLayout =
      piece.lexeme.written ++ text following pieces :=
  Lexeme.Stops.dropWhile_append sound.1 (stops_isLayout sound.2.1)

theorem Sound.dropWhile_ne_nil (sound : Sound following (piece :: pieces)) :
    (text following (piece :: pieces)).dropWhile isLayout ≠ [] := by
  rcases sound.2.1.exists_written_eq_cons with ⟨first, run, written, -⟩
  simp [sound.dropWhile_text, written]

theorem words_text_cons (position : Position)
    (sound : Sound following (piece :: pieces)) :
    Cursor.words ⟨text following (piece :: pieces), position⟩ =
      piece.token position ::
        Cursor.words ⟨text following pieces,
          (position.after piece.layout).after piece.lexeme.written⟩ := by
  rcases sound.2.1.exists_written_eq_cons with ⟨first, run, written, -⟩
  have scanned : Lexeme.scan first (run ++ text following pieces) =
      (piece.lexeme, text following pieces) :=
    Lexeme.scan_of_stands sound.2.1 (by rw [written, List.cons_append])
  have begins : (Cursor.skipLayout ⟨text following (piece :: pieces), position⟩).rest =
      first :: (run ++ text following pieces) := by
    rw [← List.cons_append, ← written]
    exact sound.dropWhile_text
  rw [Cursor.words_eq_cons begins, Cursor.next_of_rest_skipLayout_eq_cons begins, scanned]
  simp only [Cursor.skipLayout, sound.takeWhile_text]
  rfl

end

theorem words_text {following : List Char} {pieces : List Piece} (position : Position)
    (sound : Sound following pieces) :
    Cursor.words ⟨text following pieces, position⟩ =
      tokens position pieces ++
        Cursor.words ⟨following, position.after (text [] pieces)⟩ := by
  induction pieces generalizing position with
  | nil => rfl
  | cons piece pieces induction =>
      rw [words_text_cons position sound, induction _ sound.2.2, tokens, text,
        Position.after_append, Position.after_append, List.cons_append]

theorem exists_sound (cursor : Cursor) :
    ∃ trailing pieces, IsBlank trailing ∧ Sound trailing pieces ∧
      text trailing pieces = cursor.rest := by
  induction cursor using Cursor.induction with
  | ended cursor nothing =>
      exact ⟨cursor.rest, [], List.dropWhile_eq_nil_iff.mp nothing, trivial, rfl⟩
  | more cursor first rest begins induction =>
      rcases induction with ⟨trailing, pieces, blank, sound, equal⟩
      rw [Cursor.next_of_rest_skipLayout_eq_cons begins] at equal
      have stands :=
        Lexeme.stands_scan rest (Cursor.isLayout_eq_false_of_rest_skipLayout begins)
      have whole := List.takeWhile_append_dropWhile (p := isLayout) (l := cursor.rest)
      refine ⟨trailing,
        ⟨cursor.rest.takeWhile isLayout, (Lexeme.scan first rest).1⟩ :: pieces, blank,
        ⟨fun c => List.mem_takeWhile_imp, ?_, sound⟩, ?_⟩
      · rw [equal]
        exact stands
      · rw [text, equal, Lexeme.written_append_snd_scan, ← begins]
        exact whole

/-- Two sound ways to cut a text are one. -/
theorem Sound.unique {trailing trailing' : List Char} {pieces pieces' : List Piece}
    (sound : Sound trailing pieces) (sound' : Sound trailing' pieces')
    (blank : IsBlank trailing)
    (blank' : IsBlank trailing') (equal : text trailing' pieces' = text trailing pieces) :
    trailing' = trailing ∧ pieces' = pieces := by
  induction pieces generalizing pieces' with
  | nil =>
      cases pieces' with
      | nil => exact ⟨equal, rfl⟩
      | cons piece' pieces' =>
          exact absurd (equal ▸ List.dropWhile_eq_nil_iff.mpr blank)
            sound'.dropWhile_ne_nil
  | cons piece pieces induction =>
      cases pieces' with
      | nil =>
          exact absurd (equal ▸ List.dropWhile_eq_nil_iff.mpr blank')
            sound.dropWhile_ne_nil
      | cons piece' pieces' =>
          have layout : piece'.layout = piece.layout := by
            rw [← sound.takeWhile_text, ← sound'.takeWhile_text, equal]
          have rest : piece'.lexeme.written ++ text trailing' pieces' =
              piece.lexeme.written ++ text trailing pieces := by
            rw [← sound.dropWhile_text, ← sound'.dropWhile_text, equal]
          rcases sound.2.1.exists_written_eq_cons with ⟨first, run, written, -⟩
          have scanned :=
            Lexeme.scan_of_stands sound.2.1 (by rw [written, List.cons_append])
          have scanned' := Lexeme.scan_of_stands sound'.2.1
            (by rw [rest, written, List.cons_append])
          rcases Prod.mk.inj (scanned'.symm.trans scanned) with ⟨lexeme, following⟩
          rcases induction sound.2.2 sound'.2.2 following with ⟨sameTrailing, samePieces⟩
          cases piece
          cases piece'
          cases layout
          cases lexeme
          exact ⟨sameTrailing, congrArg _ samePieces⟩

theorem Sound.exists_stands {following : List Char} {pieces : List Piece}
    (sound : Sound following pieces) :
    ∀ piece ∈ pieces, ∃ after, piece.lexeme.Stands after := by
  induction pieces with
  | nil => simp
  | cons piece pieces induction =>
      exact List.forall_mem_cons.mpr ⟨⟨_, sound.2.1⟩, induction sound.2.2⟩

theorem Sound.kind_ne_endOfInput {following : List Char} {pieces : List Piece}
    (sound : Sound following pieces) :
    ∀ piece ∈ pieces, piece.lexeme.kind ≠ .endOfInput := by
  intro piece member
  rcases sound.exists_stands piece member with ⟨after, stands⟩
  exact stands.kind_ne_endOfInput

end Piece

/-- A way to cut all of `source` into lexemes and layout. -/
structure Tokenization (source : List Char) where
  pieces : List Piece
  trailing : List Char
  blank : Piece.IsBlank trailing
  sound : Piece.Sound trailing pieces
  text_eq : Piece.text trailing pieces = source

namespace Tokenization

theorem exists_tokenization (source : List Char) : Nonempty (Tokenization source) := by
  rcases Piece.exists_sound ⟨source, .origin⟩ with ⟨trailing, pieces, blank, sound, equal⟩
  exact ⟨⟨pieces, trailing, blank, sound, equal⟩⟩

theorem words_eq {source : List Char} (cut : Tokenization source) (position : Position) :
    Cursor.words ⟨source, position⟩ = Piece.tokens position cut.pieces := by
  have words := Piece.words_text position cut.sound
  have nothing :
      Cursor.words ⟨cut.trailing, position.after (Piece.text [] cut.pieces)⟩ = [] :=
    Cursor.words_eq_nil (List.dropWhile_eq_nil_iff.mpr cut.blank)
  rwa [cut.text_eq, nothing, List.append_nil] at words

theorem unique {source : List Char} (cut other : Tokenization source) : other = cut := by
  have same := cut.sound.unique other.sound cut.blank other.blank
    (other.text_eq.trans cut.text_eq.symm)
  cases cut
  cases other
  rcases same with ⟨rfl, rfl⟩
  rfl

end Tokenization

theorem Tokenization.exists_piece_of_mem_words {cursor : Cursor}
    (cut : Tokenization cursor.rest) {word : Token} (member : word ∈ cursor.words) :
    ∃ piece ∈ cut.pieces, piece.lexeme.symbol = word.symbol := by
  have symbols := Piece.map_symbol_tokens cursor.position cut.pieces
  rw [← cut.words_eq] at symbols
  have symbol : word.symbol ∈ cut.pieces.map fun piece => piece.lexeme.symbol := by
    rw [← symbols]
    exact List.mem_map_of_mem member
  exact List.mem_map.mp symbol

theorem Cursor.exists_stands_of_mem_words {cursor : Cursor} {word : Token}
    (member : word ∈ cursor.words) :
    ∃ (lexeme : Lexeme) (following : List Char),
      lexeme.Stands following ∧ lexeme.symbol = word.symbol := by
  rcases Tokenization.exists_tokenization cursor.rest with ⟨cut⟩
  rcases cut.exists_piece_of_mem_words member with ⟨piece, listed, equal⟩
  rcases cut.sound.exists_stands piece listed with ⟨following, stands⟩
  exact ⟨piece.lexeme, following, stands, equal⟩

theorem Cursor.kind_ne_endOfInput_of_mem_words {cursor : Cursor} {word : Token}
    (member : word ∈ cursor.words) : word.kind ≠ .endOfInput := by
  rcases Cursor.exists_stands_of_mem_words member with ⟨lexeme, following, stands, symbol⟩
  rw [← (Prod.mk.inj symbol).1]
  exact stands.kind_ne_endOfInput

theorem Cursor.filter_tokens (cursor : Cursor) :
    cursor.tokens.filter (·.kind ≠ .endOfInput) = cursor.words := by
  rw [Cursor.tokens_eq_words_append, List.filter_append, List.filter_eq_self.mpr]
  · exact List.append_nil _
  · intro word member
    simpa using Cursor.kind_ne_endOfInput_of_mem_words member

def Token.IsSpelled (token : Token) : Prop :=
  ∀ c, TokenKind.ofSymbol? c = some token.kind → token.text = String.ofList [c]

theorem Cursor.isSpelled_of_mem_words {cursor : Cursor} {word : Token}
    (member : word ∈ cursor.words) : word.IsSpelled := by
  intro c ofSymbol
  rcases Cursor.exists_stands_of_mem_words member with ⟨lexeme, following, stands, symbol⟩
  rcases Prod.mk.inj symbol with ⟨kind, text⟩
  rw [← text, stands.text_eq_of_ofSymbol? (kind ▸ ofSymbol)]

/-- The tokens of a text are the lexemes of its only tokenization, and then the end of
input. -/
theorem Cursor.tokens_eq_unique_tokenization (source : String) :
    ∃ cut : Tokenization source.toList,
      (Cursor.ofString source).tokens.map Token.symbol =
          (cut.pieces.map fun piece => piece.lexeme.symbol) ++ [(.endOfInput, "")] ∧
        (∀ piece ∈ cut.pieces, piece.lexeme.kind ≠ .endOfInput) ∧
        ∀ other : Tokenization source.toList, other = cut := by
  rcases Tokenization.exists_tokenization source.toList with ⟨cut⟩
  refine ⟨cut, ?_, cut.sound.kind_ne_endOfInput, cut.unique⟩
  rw [Cursor.tokens_eq_words_append, List.map_append, Cursor.ofString, cut.words_eq,
    Piece.map_symbol_tokens]
  rfl

end LispFront
