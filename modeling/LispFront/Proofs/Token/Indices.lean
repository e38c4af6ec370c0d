import LispFront.Proofs.Text.Lines
import LispFront.Proofs.Token.Placement

/-! # Tokens by index

Each token stands behind some number of characters of its text. These numbers grow from
token to token, and from them alone the place of each token can be told
(`Cursor.exists_indexed_tokens`). -/

namespace LispFront

namespace Token

/-- Behind the first `index` characters of `source` the lexeme of `token` begins, that of
a string with its opening quote. The end of input is where there are no more
characters. -/
def BeginsAt (source : List Char) (token : Token) (index : Nat) : Prop :=
  (∃ (lexeme : Lexeme) (following : List Char), lexeme.symbol = token.symbol ∧
      lexeme.Stands following ∧ source.drop index = lexeme.written ++ following) ∨
    token.symbol = (.endOfInput, "") ∧ index = source.length

/-- `token` begins behind the first `index` characters of `source`, and its place is told
by them. -/
structure StandsAt (source : List Char) (token : Token) (index : Nat) : Prop where
  begins : token.BeginsAt source index
  /-- One and the number of line feeds so far. -/
  line : token.position.line = 1 + (source.take index).count '\n'
  /-- One and the number of characters since the last of them. -/
  column : token.position.column = 1 + (lastLine (source.take index)).length

variable {source : List Char} {token : Token} {index : Nat}

theorem standsAt_iff :
    token.StandsAt source index ↔
      token.BeginsAt source index ∧
        token.position = Position.origin.after (source.take index) := by
  rw [Position.origin_after]
  constructor
  · rintro ⟨begins, line, column⟩
    exact ⟨begins, by rw [← line, ← column]⟩
  · rintro ⟨begins, place⟩
    exact ⟨begins, congrArg Position.line place, congrArg Position.column place⟩

theorem StandsAt.index_le (stands : token.StandsAt source index) :
    index ≤ source.length := by
  rcases stands.begins with ⟨lexeme, following, -, fits, rest⟩ | ⟨-, rfl⟩
  · have left := congrArg List.length rest
    have written := List.length_pos_iff.mpr fits.written_ne_nil
    rw [List.length_drop, List.length_append] at left
    omega
  · exact Nat.le_refl _

theorem StandsAt.position_lt {later : Token} {laterIndex : Nat}
    (stands : token.StandsAt source index)
    (standsLater : later.StandsAt source laterIndex) (before : index < laterIndex) :
    token.position < later.position := by
  have between : (source.take laterIndex).drop index ≠ [] := by
    have within := standsLater.index_le
    rw [← List.length_pos_iff, List.length_drop, List.length_take]
    omega
  have whole := List.take_append_drop index (source.take laterIndex)
  rw [List.take_take, Nat.min_eq_left before.le] at whole
  rw [(standsAt_iff.mp stands).2, (standsAt_iff.mp standsLater).2, ← whole,
    Position.after_append]
  exact Position.lt_after _ between

end Token

namespace Piece

def indexed (trailing front : List Char) : List Piece → List (Token × Nat)
  | [] =>
      [(⟨.endOfInput, "", Position.origin.after (front ++ trailing)⟩,
        (front ++ trailing).length)]
  | piece :: pieces =>
      (piece.token (Position.origin.after front), (front ++ piece.layout).length) ::
        indexed trailing (front ++ piece.layout ++ piece.lexeme.written) pieces

private theorem map_fst_indexed (trailing front : List Char) (pieces : List Piece) :
    (indexed trailing front pieces).map Prod.fst =
      tokens (Position.origin.after front) pieces ++
        [⟨.endOfInput, "", Position.origin.after (front ++ text trailing pieces)⟩] := by
  induction pieces generalizing front with
  | nil => rfl
  | cons piece pieces induction =>
      simp only [indexed, tokens, text, List.map_cons, induction, Position.after_append,
        List.cons_append]

private theorem length_le_of_mem_indexed {trailing front : List Char}
    {pieces : List Piece} {entry : Token × Nat}
    (member : entry ∈ indexed trailing front pieces) : front.length ≤ entry.2 := by
  induction pieces generalizing front with
  | nil =>
      rw [List.mem_singleton.mp member, List.length_append]
      omega
  | cons piece pieces induction =>
      rcases List.mem_cons.mp member with rfl | member
      · rw [List.length_append]
        omega
      · have later := induction member
        simp only [List.length_append] at later
        omega

section

variable {trailing : List Char} {pieces : List Piece}

theorem Sound.pairwise_indexed (sound : Sound trailing pieces) (front : List Char) :
    (indexed trailing front pieces).Pairwise fun entry later => entry.2 < later.2 := by
  induction pieces generalizing front with
  | nil => exact List.pairwise_singleton _ _
  | cons piece pieces induction =>
      refine .cons (fun later member => ?_) (induction sound.2.2 _)
      have written := List.length_pos_iff.mpr sound.2.1.written_ne_nil
      have behind := length_le_of_mem_indexed member
      rw [List.length_append] at behind
      omega

theorem Sound.standsAt_of_mem_indexed (sound : Sound trailing pieces) {front : List Char}
    {entry : Token × Nat} (member : entry ∈ indexed trailing front pieces) :
    entry.1.StandsAt (front ++ text trailing pieces) entry.2 := by
  rw [Token.standsAt_iff]
  induction pieces generalizing front with
  | nil =>
      have whole : (front ++ trailing).take (front ++ trailing).length =
          front ++ trailing := List.take_length
      rw [List.mem_singleton.mp member]
      exact ⟨.inr ⟨rfl, rfl⟩, congrArg _ whole.symm⟩
  | cons piece pieces induction =>
      rcases sound with ⟨-, stands, sound⟩
      rw [text, ← List.append_assoc front]
      rcases List.mem_cons.mp member with rfl | member
      · rw [List.take_left]
        exact ⟨.inl ⟨piece.lexeme, text trailing pieces, rfl, stands, List.drop_left⟩,
          (Position.after_append _ _ _).symm⟩
      · rw [← List.append_assoc]
        exact induction sound member

end

end Piece

namespace Tokenization

variable {source : List Char}

def entries (cut : Tokenization source) : List (Token × Nat) :=
  Piece.indexed cut.trailing [] cut.pieces

theorem map_fst_entries (cut : Tokenization source) :
    cut.entries.map Prod.fst = Cursor.tokens ⟨source, .origin⟩ := by
  rw [entries, Piece.map_fst_indexed, List.nil_append, cut.text_eq,
    Cursor.tokens_eq_words_append, cut.words_eq]
  rfl

theorem standsAt_of_mem_entries (cut : Tokenization source) {entry : Token × Nat}
    (member : entry ∈ cut.entries) : entry.1.StandsAt source entry.2 := by
  have stands := cut.sound.standsAt_of_mem_indexed member
  rwa [List.nil_append, cut.text_eq] at stands

end Tokenization

namespace Cursor

theorem exists_written {source : List Char} {word : Token}
    (member : word ∈ tokens ⟨source, .origin⟩) (more : word.kind ≠ .endOfInput) :
    ∃ (lexeme : Lexeme) (before following : List Char), lexeme.symbol = word.symbol ∧
      lexeme.Stands following ∧ source = before ++ (lexeme.written ++ following) ∧
        word.position = Position.origin.after before := by
  rcases Tokenization.exists_tokenization source with ⟨cut⟩
  rw [← cut.map_fst_entries] at member
  rcases List.mem_map.mp member with ⟨entry, listed, rfl⟩
  rcases Token.standsAt_iff.mp (cut.standsAt_of_mem_entries listed) with ⟨begins, place⟩
  rcases begins with ⟨lexeme, following, symbol, fits, behind⟩ | ⟨ended, -⟩
  · refine ⟨lexeme, source.take entry.2, following, symbol, fits, ?_, place⟩
    rw [← behind, List.take_append_drop]
  · exact absurd (Prod.mk.inj ended).1 more

/-- The tokens of a text, with the number of characters before each, the end of input
among them. -/
theorem exists_indexed_tokens (source : String) :
    ∃ entries : List (Token × Nat), entries.map Prod.fst = (ofString source).tokens ∧
      (∀ entry ∈ entries, entry.1.StandsAt source.toList entry.2) ∧
      entries.Pairwise fun entry later =>
        entry.2 < later.2 ∧ entry.1.position < later.1.position := by
  rcases Tokenization.exists_tokenization source.toList with ⟨cut⟩
  refine ⟨cut.entries, cut.map_fst_entries, fun _ => cut.standsAt_of_mem_entries, ?_⟩
  refine (cut.sound.pairwise_indexed []).imp_of_mem fun member memberLater before =>
    ⟨before, ?_⟩
  exact (cut.standsAt_of_mem_entries member).position_lt
    (cut.standsAt_of_mem_entries memberLater) before

end Cursor

end LispFront
