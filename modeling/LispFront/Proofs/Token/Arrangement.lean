import LispFront.Proofs.Token.Tokenization

/-! # Arranged words

Words are laid out with layout between each two of them, and possibly around them. However
that is done, what is read from the text are these words
(`Arrangement.map_symbol_words`). -/

namespace LispFront

/-! ## Single words -/

/-- Whether a token of this kind may have this text. The end of the input has none that
could be written. -/
def TokenKind.admits : TokenKind → List Char → Bool
  | number, first :: run => first.isDigit && run.all Lexeme.continuesNumber
  | identifier, first :: run => isAlphabetic first && run.all isAlphabetic
  | string, text => !text.contains '"'
  | illegal, [c] =>
      !c.isDigit && !isAlphabetic c && c != '"' && !isLayout c && (ofSymbol? c).isNone
  | kind, [c] => ofSymbol? c == some kind
  | _, _ => false

/-- Whether a token can be written so that it is read back. -/
def Token.isWritable (token : Token) : Bool :=
  token.kind.admits token.text.toList

def Token.lexeme (token : Token) : Lexeme :=
  let text := token.text.toList
  ⟨token.kind, text, if token.kind = .string then '"' :: (text ++ ['"']) else text⟩

@[simp] theorem Token.symbol_lexeme (token : Token) :
    token.lexeme.symbol = token.symbol := by
  simp [lexeme, Lexeme.symbol, symbol]

def BeginsBlank (text : List Char) : Prop :=
  ∀ c ∈ text.head?, isLayout c = true

theorem BeginsBlank.stops_number {text : List Char} (blank : BeginsBlank text) :
    Lexeme.Stops Lexeme.continuesNumber text := by
  intro c member
  have layout := blank c member
  simp only [isLayout, Bool.or_eq_true, decide_eq_true_eq] at layout
  rcases layout with (rfl | rfl) | rfl <;> decide

theorem BeginsBlank.stops_identifier {text : List Char} (blank : BeginsBlank text) :
    Lexeme.Stops isAlphabetic text :=
  fun c member => (isSolitary_of_isLayout (blank c member)).alphabetic

theorem Token.stands_lexeme {token : Token} {following : List Char}
    (writable : token.isWritable = true) (blank : BeginsBlank following) :
    token.lexeme.Stands following := by
  rcases token with ⟨kind, text, position⟩
  simp only [isWritable, lexeme] at writable ⊢
  generalize text.toList = characters at writable ⊢
  unfold TokenKind.admits at writable
  split at writable
  case h_1 first run =>
    rw [Bool.and_eq_true, List.all_eq_true] at writable
    exact .number writable.1 writable.2 blank.stops_number
  case h_2 first run =>
    rw [Bool.and_eq_true, List.all_eq_true] at writable
    exact .identifier writable.1 writable.2 blank.stops_identifier
  case h_3 =>
    refine .closedString ?_
    simpa using writable
  case h_4 c =>
    simp only [Bool.and_eq_true, Bool.not_eq_true', bne_iff_ne,
      Option.isNone_iff_eq_none] at writable
    rcases writable with ⟨⟨⟨⟨digit, alphabetic⟩, quote⟩, layout⟩, symbol⟩
    exact .illegal ⟨digit, alphabetic, quote⟩ layout symbol
  case h_5 c _ _ _ _ =>
    rw [beq_iff_eq] at writable
    rw [if_neg (isSymbol_of_ofSymbol? writable).2.2.1]
    exact .symbol writable
  case h_6 => cases writable

/-! ## Rows of words -/

/-- A way to lay words out: each has layout in front of it, which only the first may do
without, and there may be more at the end. -/
structure Arrangement (words : List Token) where
  pieces : List Piece
  trailing : List Char
  lexemes : pieces.map Piece.lexeme = words.map Token.lexeme
  blank : ∀ piece ∈ pieces, Piece.IsBlank piece.layout
  apart : ∀ piece ∈ pieces.tail, piece.layout ≠ []
  trailingBlank : Piece.IsBlank trailing

namespace Piece

private theorem beginsBlank_of_isBlank {characters : List Char}
    (blank : IsBlank characters) : BeginsBlank characters :=
  fun c member => blank c (List.mem_of_mem_head? member)

private theorem beginsBlank_text {trailing : List Char} {pieces : List Piece}
    (blank : ∀ piece ∈ pieces, IsBlank piece.layout)
    (apart : ∀ piece ∈ pieces, piece.layout ≠ [])
    (trailingBlank : IsBlank trailing) : BeginsBlank (text trailing pieces) := by
  cases pieces with
  | nil => exact beginsBlank_of_isBlank trailingBlank
  | cons piece rest =>
      have layout := beginsBlank_of_isBlank (blank piece List.mem_cons_self)
      rcases List.exists_cons_of_ne_nil (apart piece List.mem_cons_self) with
        ⟨c, more, equal⟩
      rw [equal] at layout
      rw [text, equal]
      exact layout

theorem sound_of_apart {trailing : List Char} {pieces : List Piece}
    (blank : ∀ piece ∈ pieces, IsBlank piece.layout)
    (apart : ∀ piece ∈ pieces.tail, piece.layout ≠ []) (trailingBlank : IsBlank trailing)
    (written : ∀ piece ∈ pieces, ∃ word : Token, word.isWritable = true ∧
      word.lexeme = piece.lexeme) :
    Sound trailing pieces := by
  induction pieces with
  | nil => trivial
  | cons piece rest induction =>
      rcases List.forall_mem_cons.mp blank with ⟨first, blank⟩
      rcases List.forall_mem_cons.mp written with ⟨⟨word, writable, equal⟩, written⟩
      have stands :=
        Token.stands_lexeme writable (beginsBlank_text blank apart trailingBlank)
      rw [equal] at stands
      have apartLater : ∀ piece ∈ rest.tail, piece.layout ≠ [] := fun piece member =>
        apart piece (List.mem_of_mem_tail member)
      exact ⟨first, stands, induction blank apartLater written⟩

end Piece

namespace Arrangement

variable {words : List Token}

def text (arrangement : Arrangement words) : List Char :=
  Piece.text arrangement.trailing arrangement.pieces

def tokenization (arrangement : Arrangement words)
    (writable : ∀ word ∈ words, word.isWritable = true) :
    Tokenization arrangement.text where
  pieces := arrangement.pieces
  trailing := arrangement.trailing
  blank := arrangement.trailingBlank
  sound := by
    apply Piece.sound_of_apart arrangement.blank arrangement.apart
      arrangement.trailingBlank
    intro piece member
    have lexeme := List.mem_map_of_mem (f := Piece.lexeme) member
    rw [arrangement.lexemes] at lexeme
    rcases List.mem_map.mp lexeme with ⟨word, listed, equal⟩
    exact ⟨word, writable word listed, equal⟩
  text_eq := rfl

theorem map_symbol_words (arrangement : Arrangement words)
    (writable : ∀ word ∈ words, word.isWritable = true) (position : Position) :
    (Cursor.words ⟨arrangement.text, position⟩).map Token.symbol =
      words.map Token.symbol := by
  have symbols := congrArg (List.map Lexeme.symbol) arrangement.lexemes
  simp only [List.map_map, Function.comp_def, Token.symbol_lexeme] at symbols
  rw [(arrangement.tokenization writable).words_eq, Piece.map_symbol_tokens]
  exact symbols

end Arrangement

end LispFront
