import LispFront.Proofs.Parse.Ending
import LispFront.Proofs.Parse.Resumption
import LispFront.Proofs.Token.Boundary

/-! # Texts read one after the other

A text that leaves nothing open can be followed by another on the next line: each is read
as it is read alone (`Reading.ofWords_append`). -/

namespace LispFront

def Position.lower (lines : Nat) (position : Position) : Position :=
  ⟨position.line + lines, position.column⟩

theorem Position.advance_lower (lines : Nat) (position : Position) (c : Char) :
    (position.lower lines).advance c = (position.advance c).lower lines := by
  by_cases newline : c = '\n'
  · simp [advance, lower, newline]
    omega
  · simp [advance, lower, newline]

theorem Position.after_newline (characters : List Char) :
    (origin.after characters).after ['\n'] =
      origin.lower (characters.count '\n' + 1) := by
  rw [after_cons, after_nil, advance, if_pos rfl, line_after, lower]
  rfl

theorem Position.displace_concat_newline (characters : List Char) :
    displace (characters ++ ['\n']) = lower (characters.count '\n' + 1) := by
  funext position
  simp [displace, lower]

namespace Cursor

theorem toList_append_newline (first second : String) :
    (first ++ "\n" ++ second).toList = first.toList ++ (['\n'] ++ second.toList) := by
  simp

theorem words_append_newline (first second : String)
    (even : first.toList.count '"' % 2 = 0) :
    (ofString (first ++ "\n" ++ second)).words =
      (ofString first).words ++ (ofString second).words.map
        (Token.relocate (Position.lower (first.toList.count '\n' + 1))) := by
  rcases Tokenization.exists_tokenization first.toList with ⟨cut⟩
  have halts : ∀ piece ∈ cut.pieces.getLast?, cut.trailing = [] →
      piece.lexeme.Halts (['\n'] ++ second.toList) := fun _ _ _ =>
    Lexeme.halts_of_beginsBlank (by simp [BeginsBlank, isLayout])
  rw [ofString, toList_append_newline,
    words_append_layout cut (by simp [Piece.IsBlank, isLayout]) even halts,
    Position.displace_concat_newline]
  rfl

end Cursor

namespace State

private theorem resume_initial (earlier : Array Expression) (move : Position → Position) :
    initial.resume earlier move = ⟨earlier, [], .expression⟩ := by
  simp [resume, initial, Mode.relocate]

end State

namespace Reading

def append (first second : Reading) : Reading :=
  ⟨⟨first.program.expressions ++ second.program.expressions⟩,
    first.diagnostics ++ second.diagnostics⟩

/-- After words that leave nothing open, more words are read as they are read alone. -/
theorem ofWords_append {first second : List Token} (move : Position → Position)
    (firstEnd secondEnd : Position)
    (idle : (State.initial.readAll first).1.isIdle = true) :
    ofWords (first ++ second.map (Token.relocate move)) (move secondEnd) =
      (ofWords first firstEnd).append ((ofWords second secondEnd).relocate move) := by
  have resumed : (State.initial.readAll first).1 =
      State.initial.resume (State.initial.readAll first).1.finished move :=
    (State.eq_of_isIdle idle).trans (State.resume_initial _ move).symm
  have later :=
    State.readAll_resume (State.initial.readAll first).1.finished move .initial second
  rw [← resumed] at later
  simp only [ofWords, State.readAll_append, later, State.resumeOutcome,
    State.close_resume, State.close_of_isIdle firstEnd idle, append, relocate,
    Program.relocate]
  simp [List.append_assoc]

/-- Two texts, one below the other, of which the first leaves nothing open. -/
theorem ofText_append_newline (first second : String)
    (even : first.toList.count '"' % 2 = 0)
    (whole : ∀ diagnostic ∈ (ofText first).diagnostics, diagnostic.meetsEnd = false) :
    ofText (first ++ "\n" ++ second) =
      (ofText first).append
        ((ofText second).relocate (Position.lower (first.toList.count '\n' + 1))) := by
  let lines := first.toList.count '\n' + 1
  have final : (Cursor.ofString (first ++ "\n" ++ second)).exhausted.position =
      (Cursor.ofString second).exhausted.position.lower lines := by
    simp only [Cursor.ofString, Cursor.exhausted, Cursor.toList_append_newline,
      Position.after_append, Position.after_newline]
    exact Position.after_move (Position.advance_lower lines) _ _
  have idle : (State.initial.readAll (Cursor.ofString first).words).1.isIdle = true := by
    rw [ofText_eq_ofWords] at whole
    exact (isIdle_iff_forall_meetsEnd _ fun _ =>
      Cursor.kind_ne_endOfInput_of_mem_words).mpr whole
  rw [ofText_eq_ofWords, ofText_eq_ofWords first, ofText_eq_ofWords second,
    Cursor.words_append_newline first second even, final]
  exact ofWords_append (Position.lower lines) _ _ idle

theorem ofText_append_newline_of_malformed :
    ofText (") (fn f [1 x]) (1 \"a\nb\")" ++ "\n" ++ "] (+ 1 [") =
      (ofText ") (fn f [1 x]) (1 \"a\nb\")").append
        ((ofText "] (+ 1 [").relocate (Position.lower 2)) := by
  have even : ") (fn f [1 x]) (1 \"a\nb\")".toList.count '"' % 2 = 0 := by decide
  have whole : ∀ diagnostic ∈ (ofText ") (fn f [1 x]) (1 \"a\nb\")").diagnostics,
      diagnostic.meetsEnd = false := by
    decide +kernel
  have lines : ") (fn f [1 x]) (1 \"a\nb\")".toList.count '\n' + 1 = 2 := by decide
  rw [← lines]
  exact ofText_append_newline ") (fn f [1 x]) (1 \"a\nb\")" "] (+ 1 [" even whole

end Reading

end LispFront
