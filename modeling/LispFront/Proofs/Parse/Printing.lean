import LispFront.Proofs.Parse.Acceptance
import LispFront.Proofs.Parse.Independence
import LispFront.Proofs.Syntax.Tokens
import LispFront.Proofs.Token.Arrangement

/-! # Printing and reading

A valid program is written down as its words, with any layout between them. What is read
from the text is that program again, but for the places of its tokens
(`Reading.flawless_ofText_arrangement`). -/

namespace LispFront

/-! ## The words of a program -/

/-- A token that may stand for a mark. Where the mark keeps none, the place means
nothing. -/
def Mark.word : Mark → Token
  | kept token => token
  | symbol kind text => ⟨kind, text, .origin⟩

def Program.words (program : Program) : List Token :=
  (marksAll program.expressions).map Mark.word

theorem Mark.fits_word (mark : Mark) : mark.Fits mark.word := by
  cases mark with
  | kept token => rfl
  | symbol kind text => exact ⟨rfl, rfl⟩

theorem Program.writtenAs_words (program : Program) : program.WrittenAs program.words :=
  List.forall₂_map_right_iff.mpr (List.forall₂_same.mpr fun mark _ => mark.fits_word)

/-! ## Words that can be written

Besides the tokens that a tree keeps, only brackets and the keyword are written. -/

private theorem isWritable_keyword : Mark.keyword.word.isWritable = true := by
  decide +kernel

private theorem isWritable_leftSquare : Mark.leftSquare.word.isWritable = true := by
  decide +kernel

private theorem isWritable_rightSquare : Mark.rightSquare.word.isWritable = true := by
  decide +kernel

private theorem isWritable_rightRound : Mark.rightRound.word.isWritable = true := by
  decide +kernel

mutual

theorem Expression.isWritable_marks (expression : Expression)
    (writable : ∀ token ∈ expression.tokens, token.isWritable = true) :
    ∀ mark ∈ expression.marks, mark.word.isWritable = true := by
  cases expression with
  | number token value =>
      simpa [Expression.marks, Expression.tokens, Mark.word] using writable
  | string token value =>
      simpa [Expression.marks, Expression.tokens, Mark.word] using writable
  | identifier name =>
      simpa [Expression.marks, Expression.tokens, Identifier.mark,
        Mark.word] using writable
  | array opening elements =>
      simp only [Expression.tokens, List.forall_mem_cons] at writable
      have inner := isWritable_marksAll elements writable.2
      simp only [Expression.marks, List.forall_mem_cons, List.forall_mem_append]
      exact ⟨writable.1, inner, isWritable_rightSquare, nofun⟩
  | call opening function arguments =>
      simp only [Expression.tokens, List.forall_mem_cons] at writable
      have inner := isWritable_marksAll arguments writable.2.2
      simp only [Expression.marks, List.forall_mem_cons, List.forall_mem_append]
      exact ⟨writable.1, writable.2.1, inner, isWritable_rightRound, nofun⟩
  | function opening name parameters body =>
      simp only [Expression.tokens, List.forall_mem_cons, List.forall_mem_append,
        List.forall_mem_map]
        at writable
      rcases writable with ⟨openingWritable, nameWritable, names, bodyWritable⟩
      have inner := isWritable_marksAll body bodyWritable
      simp only [Expression.marks, List.forall_mem_cons, List.forall_mem_append,
        List.forall_mem_map]
      exact ⟨openingWritable, isWritable_keyword, nameWritable,
        isWritable_leftSquare, names, isWritable_rightSquare, inner,
        isWritable_rightRound, nofun⟩

theorem isWritable_marksAll (expressions : List Expression)
    (writable : ∀ token ∈ tokensAll expressions, token.isWritable = true) :
    ∀ mark ∈ marksAll expressions, mark.word.isWritable = true := by
  cases expressions with
  | nil => simp [marksAll]
  | cons expression rest =>
      rw [tokensAll, List.forall_mem_append] at writable
      rw [marksAll, List.forall_mem_append]
      exact ⟨expression.isWritable_marks writable.1, isWritable_marksAll rest writable.2⟩

end

namespace Reading

/-- A valid program that is laid out in any way is read back without a diagnostic, but for
its places. -/
theorem flawless_ofText_arrangement {program : Program} (valid : program.Valid)
    (writable : ∀ token ∈ program.tokens, token.isWritable = true)
    (arrangement : Arrangement program.words) :
    ∃ read, (ofText (String.ofList arrangement.text)).flawless = .ok read ∧
      read.agrees program = true := by
  have words : ∀ word ∈ program.words, word.isWritable = true :=
    List.forall_mem_map.mpr (isWritable_marksAll program.expressions writable)
  have symbols := arrangement.map_symbol_words words .origin
  have alike :=
    alike_ofWords (Cursor.exhausted ⟨arrangement.text, .origin⟩).position .origin symbols
  rw [ofWords_of_writtenAs .origin valid program.writtenAs_words] at alike
  refine ⟨_, flawless_eq_ok.mpr ⟨?_, rfl⟩, ?_⟩
  · rw [ofText_eq_ofWords, Cursor.ofString, String.toList_ofList]
    exact List.forall₂_nil_right_iff.mp alike.diagnostics
  · rw [ofText_eq_ofWords, Cursor.ofString, String.toList_ofList]
    exact alike.program

/-- The keyword as a name, an odd name, brackets in a string, and all kinds of layout. -/
theorem flawless_ofText_arrangement_of_nested :
    let token (kind : TokenKind) (text : String) : Token := ⟨kind, text, .origin⟩
    let name : Identifier := .ofToken (token .identifier "fn")
    let program : Program :=
      ⟨[.array (token .leftSquare "[")
        [.string (token .string "(\n]") "(\n]", .identifier name],
        .function (token .leftRound "(") (token .illegal "%") [name]
          [.call (token .leftRound "(") (token .plus "+")
            [.number (token .number "1.2.") "1.2."]]]⟩
    program.Valid ∧ (∀ token ∈ program.tokens, token.isWritable = true) ∧
      ∃ arrangement : Arrangement program.words,
        arrangement.text = "\n[ \"(\n]\"\tfn\n\n] ( fn % [ fn \t] ( + 1.2. ) ) ".toList ∧
          ∃ read, (ofText (String.ofList arrangement.text)).flawless = .ok read ∧
            read.agrees program = true := by
  intro token name program
  let layouts : List (List Char) :=
    [['\n'], [' '], ['\t'], ['\n', '\n'], [' '], [' '], [' '], [' '], [' '],
      [' ', '\t'], [' '], [' '], [' '], [' '], [' ']]
  let pieces := List.zipWith Piece.mk layouts (program.words.map Token.lexeme)
  have blank : ∀ piece ∈ pieces, piece.layout.all isLayout = true := by decide +kernel
  have text : Piece.text [' '] pieces =
      "\n[ \"(\n]\"\tfn\n\n] ( fn % [ fn \t] ( + 1.2. ) ) ".toList := by
    decide +kernel
  let arrangement : Arrangement program.words :=
    ⟨pieces, [' '], by decide +kernel,
      fun piece member => List.all_eq_true.mp (blank piece member), by
        decide +kernel, List.all_eq_true.mp rfl⟩
  have valid : program.Valid := by
    simp [program, name, token, Program.Valid, AllValid, Expression.Valid,
      Identifier.Valid, Identifier.ofToken, Token.NamesFunction, Token.HeadsCall,
      Token.isOperator, TokenKind.isOperator,
      TokenKind.isBracket]
  have writable : ∀ token ∈ program.tokens, token.isWritable = true := by decide +kernel
  exact ⟨valid, writable, arrangement, text,
    flawless_ofText_arrangement valid writable arrangement⟩

end Reading

end LispFront
