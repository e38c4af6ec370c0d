import LispFront.Proofs.Token.Tokenization

/-! # Words without quotes

In a text without quotes every word is told by its first character, and where its text is
known to end it can be read back with its kind. -/

namespace LispFront

def TokenKind.ofFirst (c : Char) : TokenKind :=
  if c.isDigit then
    .number
  else if isAlphabetic c then
    .identifier
  else
    (ofSymbol? c).getD .illegal

theorem TokenKind.ofFirst_of_isSolitary {c : Char} (solitary : IsSolitary c) :
    ofFirst c = (ofSymbol? c).getD .illegal := by
  simp [ofFirst, solitary.digit, solitary.alphabetic]

def continuesWord (c : Char) : Bool :=
  Lexeme.continuesNumber c || isAlphabetic c

structure Token.BeginsWith (token : Token) (first : Char) (run : List Char) : Prop where
  text : token.text.toList = first :: run
  kind : token.kind = .ofFirst first
  layout : isLayout first = false
  inside : ∀ c ∈ run, continuesWord c = true

/-- A word that is no string. -/
def Token.Unquoted (token : Token) : Prop :=
  ∃ first run, token.BeginsWith first run

namespace Token

variable {left right token : Token}

/-- Two words that end at the same character are the same where the texts are. -/
theorem Unquoted.append_inj (unquoted : left.Unquoted) (unquoted' : right.Unquoted)
    {stop : Char} (stops : continuesWord stop = false) {rest rest' : List Char}
    (same : left.text.toList ++ stop :: rest = right.text.toList ++ stop :: rest') :
    left.agrees right = true ∧ rest = rest' := by
  obtain ⟨first, run, begins⟩ := unquoted
  obtain ⟨first', run', begins'⟩ := unquoted'
  rw [begins.text, begins'.text] at same
  obtain ⟨rfl, behind⟩ := List.cons.inj same
  have ends (after : List Char) := Lexeme.stops_cons after stops
  have run_eq : run = run' := by
    rw [← (ends rest).takeWhile_append begins.inside,
      ← (ends rest').takeWhile_append begins'.inside]
    exact congrArg _ behind
  have rest_eq : stop :: rest = stop :: rest' := by
    rw [← (ends rest).dropWhile_append begins.inside,
      ← (ends rest').dropWhile_append begins'.inside]
    exact congrArg _ behind
  have text : left.text = right.text := by
    rw [← String.toList_inj, begins.text, begins'.text, run_eq]
  exact ⟨agrees_iff.mpr ⟨begins.kind.trans begins'.kind.symm, text⟩,
    (List.cons.inj rest_eq).2⟩

private theorem ne_lineFeed_of_continuesWord {c : Char}
    (inside : continuesWord c = true) : c ≠ '\n' := by
  rintro rfl
  exact absurd inside (by decide)

theorem Unquoted.lineFeed_notMem (unquoted : token.Unquoted) :
    '\n' ∉ token.text.toList := by
  obtain ⟨first, run, begins⟩ := unquoted
  rw [begins.text, List.mem_cons, not_or]
  refine ⟨?_, fun member => ne_lineFeed_of_continuesWord (begins.inside _ member) rfl⟩
  rintro rfl
  exact absurd begins.layout (by decide)

theorem Unquoted.kind_ne_string (unquoted : token.Unquoted) : token.kind ≠ .string := by
  obtain ⟨first, run, begins⟩ := unquoted
  rw [begins.kind, TokenKind.ofFirst]
  split
  · decide
  split
  · decide
  · cases symbol : TokenKind.ofSymbol? first with
    | none => decide
    | some kind => exact (isSymbol_of_ofSymbol? symbol).2.2.1

end Token

/-! ## The words of a text without quotes -/

theorem Lexeme.Stands.unquoted {lexeme : Lexeme} {following : List Char} {word : Token}
    (stands : lexeme.Stands following) (unquoted : '"' ∉ lexeme.written)
    (symbol : lexeme.symbol = word.symbol) : word.Unquoted := by
  obtain ⟨kind, text⟩ := Prod.mk.inj symbol
  replace text := congrArg String.toList text.symm
  rw [String.toList_ofList] at text
  cases stands with
  | number digit inside stops =>
      refine ⟨_, _, text, kind.symm.trans ?_, isLayout_eq_false_of_isDigit digit,
        fun c member => ?_⟩
      · simp [TokenKind.ofFirst, digit]
      · simp [continuesWord, inside c member]
  | identifier alphabetic inside stops =>
      refine ⟨_, _, text, kind.symm.trans ?_,
        isLayout_eq_false_of_isAlphabetic alphabetic, fun c member => ?_⟩
      · simp [TokenKind.ofFirst, isDigit_eq_false_of_isAlphabetic alphabetic, alphabetic]
      · simp [continuesWord, inside c member]
  | closedString => simp at unquoted
  | openString => simp at unquoted
  | symbol ofSymbol =>
      refine ⟨_, _, text, kind.symm.trans ?_,
        isLayout_eq_false_of_ofSymbol? ofSymbol, nofun⟩
      rw [TokenKind.ofFirst_of_isSolitary (isSolitary_of_ofSymbol? ofSymbol), ofSymbol,
        Option.getD_some]
  | illegal solitary layout ofSymbol =>
      refine ⟨_, _, text, kind.symm.trans ?_, layout, nofun⟩
      rw [TokenKind.ofFirst_of_isSolitary solitary, ofSymbol, Option.getD_none]

namespace Piece

private theorem mem_text {c : Char} {following : List Char} {pieces : List Piece}
    {piece : Piece} (listed : piece ∈ pieces) (member : c ∈ piece.lexeme.written) :
    c ∈ text following pieces := by
  induction pieces with
  | nil => cases listed
  | cons first pieces induction =>
      rw [text, List.mem_append, List.mem_append]
      rcases List.mem_cons.mp listed with rfl | listed
      · exact .inr (.inl member)
      · exact .inr (.inr (induction listed))

end Piece

theorem Cursor.unquoted_of_mem_words {cursor : Cursor} (unquoted : '"' ∉ cursor.rest)
    {word : Token} (member : word ∈ cursor.words) : word.Unquoted := by
  rcases Tokenization.exists_tokenization cursor.rest with ⟨cut⟩
  rcases cut.exists_piece_of_mem_words member with ⟨piece, listed, symbol⟩
  rcases cut.sound.exists_stands piece listed with ⟨following, stands⟩
  refine stands.unquoted (fun quoted => unquoted ?_) symbol
  rw [← cut.text_eq]
  exact Piece.mem_text listed quoted

end LispFront
