import LispFront.Proofs.Parse.Reading
import LispFront.Proofs.Token.Tokenization

/-! # Tapes

A parser pulls its tokens off a text while it reads. One that reads a tape finds all
tokens scanned beforehand, and behind them the end of the input as often as it asks.
Wherever in a text they begin, both give the same (`Parser.parse_skip`). -/

namespace LispFront

/-! ## Cursors that have moved on -/

namespace Cursor

def skip (cursor : Cursor) : Nat → Cursor
  | 0 => cursor
  | count + 1 => cursor.next.2.skip count

def ending (cursor : Cursor) : Token :=
  ⟨.endOfInput, "", cursor.exhausted.position⟩

theorem exhausted_skip (cursor : Cursor) (count : Nat) :
    (cursor.skip count).exhausted = cursor.exhausted := by
  induction count generalizing cursor with
  | zero => rfl
  | succ count induction => rw [skip, induction, exhausted_next]

theorem ending_skip (cursor : Cursor) (count : Nat) :
    (cursor.skip count).ending = cursor.ending := by
  rw [ending, exhausted_skip, ending]

theorem words_skip (cursor : Cursor) (count : Nat) :
    (cursor.skip count).words = cursor.words.drop count := by
  induction count generalizing cursor with
  | zero => rfl
  | succ count induction => rw [skip, induction, words_next, List.drop_tail]

theorem tokens_eq_words_append_ending (cursor : Cursor) :
    cursor.tokens = cursor.words ++ [cursor.ending] :=
  cursor.tokens_eq_words_append

theorem next_eq_ending {cursor : Cursor} (noWords : cursor.words = []) :
    cursor.next.1 = cursor.ending := by
  cases begins : cursor.skipLayout.rest with
  | nil =>
      rw [next_eq_exhausted begins]
      rfl
  | cons first rest =>
      rw [words_eq_cons begins] at noWords
      cases noWords

theorem next_skip_of_ended {cursor : Cursor} (ended : cursor.next.1.kind = .endOfInput)
    (later : Nat) : (cursor.skip later).next.1 = cursor.next.1 := by
  have noWords := words_eq_nil_of_kind ended
  have noWordsLater : (cursor.skip later).words = [] := by
    rw [words_skip, noWords, List.drop_nil]
  rw [next_eq_ending noWords, next_eq_ending noWordsLater, ending_skip]

theorem tokens_skip (cursor : Cursor) (count : Nat) :
    (cursor.skip count).tokens =
      if count < cursor.tokens.length then cursor.tokens.drop count
      else [cursor.ending] := by
  rw [tokens_eq_words_append_ending, words_skip, ending_skip,
    tokens_eq_words_append_ending cursor, List.length_append, List.length_singleton]
  by_cases within : count < cursor.words.length + 1
  · rw [if_pos within, List.drop_append_of_le_length (Nat.le_of_lt_succ within)]
  · rw [if_neg within, List.drop_eq_nil_of_le (by omega), List.nil_append]

end Cursor

/-! ## Tapes -/

/-- Tokens that have been scanned already, and the end of the input that comes behind them
without end. -/
structure Tape where
  ahead : List Token
  ending : Token
  ends : ending.kind = .endOfInput

namespace Tape

def next (tape : Tape) : Token × Tape :=
  match tape.ahead with
  | [] => (tape.ending, tape)
  | token :: ahead => (token, { tape with ahead })

private theorem length_ahead_next_le (tape : Tape) :
    tape.next.2.ahead.length ≤ tape.ahead.length := by
  rcases tape with ⟨_ | ⟨token, ahead⟩, ending, ends⟩
  · exact Nat.le_refl _
  · exact Nat.le_succ _

private theorem length_ahead_next_lt {tape : Tape}
    (more : tape.next.1.kind ≠ .endOfInput) :
    tape.next.2.ahead.length < tape.ahead.length := by
  rcases tape with ⟨_ | ⟨token, ahead⟩, ending, ends⟩
  · exact (more ends).elim
  · exact Nat.lt_succ_self _

/-- A bound on the readings to come, as for a text (`Parser.work`). -/
def work (tape : Tape) (state : State) : Nat :=
  2 * tape.ahead.length + state.owed

theorem work_step_lt {tape : Tape} (state : State)
    (more : tape.next.1.kind ≠ .endOfInput) :
    tape.next.2.work (state.step tape.next.1).1 < tape.work state := by
  have opened := State.owed_step_le state tape.next.1
  have shorter := length_ahead_next_lt more
  unfold work
  omega

theorem work_stepEnd_lt (tape : Tape) {state : State} (busy : state.isIdle = false) :
    tape.next.2.work (state.stepEnd tape.next.1.position).1 < tape.work state := by
  have closed := State.owed_stepEnd_lt tape.next.1.position busy
  have kept := tape.length_ahead_next_le
  unfold work
  omega

def run (tape : Tape) (state : State) : Array Expression × List Diagnostic :=
  if ended : tape.next.1.kind = .endOfInput then
    if busy : state.isIdle = false then
      have := work_stepEnd_lt tape busy
      let first := state.stepEnd tape.next.1.position
      let later := tape.next.2.run first.1
      (later.1, first.2 ++ later.2)
    else
      (state.finished, [])
  else
    have := work_step_lt state ended
    let first := state.step tape.next.1
    let later := tape.next.2.run first.1
    (later.1, first.2 ++ later.2)
termination_by tape.work state

def parse (tape : Tape) : Reading :=
  let run := tape.run .initial
  ⟨⟨run.1.toList⟩, run.2⟩

private theorem run_of_word {tape : Tape} (state : State)
    (more : tape.next.1.kind ≠ .endOfInput) :
    tape.run state =
      ((tape.next.2.run (state.step tape.next.1).1).1,
        (state.step tape.next.1).2 ++
          (tape.next.2.run (state.step tape.next.1).1).2) := by
  rw [run]
  simp [more]

private theorem run_of_end {tape : Tape} {state : State}
    (ended : tape.next.1.kind = .endOfInput) (busy : state.isIdle = false) :
    tape.run state =
      ((tape.next.2.run (state.stepEnd tape.next.1.position).1).1,
        (state.stepEnd tape.next.1.position).2 ++
          (tape.next.2.run (state.stepEnd tape.next.1.position).1).2) := by
  rw [run]
  simp [ended, busy]

private theorem run_of_isIdle {tape : Tape} {state : State}
    (ended : tape.next.1.kind = .endOfInput) (idle : state.isIdle = true) :
    tape.run state = (state.finished, []) := by
  rw [run]
  simp [ended, idle]

/-! ## Reading a tape

The words on a tape are read one after the other; then the open constructs meet the
end. -/

variable {ending : Token} {ends : ending.kind = .endOfInput}

private theorem run_append {words : List Token}
    (more : ∀ word ∈ words, word.kind ≠ .endOfInput) (ahead : List Token)
    (state : State) :
    run ⟨words ++ ahead, ending, ends⟩ state =
      ((run ⟨ahead, ending, ends⟩ (state.readAll words).1).1,
        (state.readAll words).2 ++
          (run ⟨ahead, ending, ends⟩ (state.readAll words).1).2) := by
  induction words generalizing state with
  | nil => rfl
  | cons word words induction =>
      rcases List.forall_mem_cons.mp more with ⟨first, later⟩
      have read := @run_of_word ⟨word :: (words ++ ahead), ending, ends⟩ state first
      rw [List.cons_append, read]
      simp only [next, induction later, State.readAll, List.append_assoc]

private theorem next_of_ended {ahead : List Token}
    (ended : ∀ token ∈ ahead, token = ending) :
    next ⟨ahead, ending, ends⟩ = (ending, ⟨ahead.tail, ending, ends⟩) := by
  rcases ahead with _ | ⟨token, ahead⟩
  · rfl
  · rw [next, ended token List.mem_cons_self, List.tail_cons]

theorem run_eq_close (ahead : List Token) (ended : ∀ token ∈ ahead, token = ending)
    (state : State) : run ⟨ahead, ending, ends⟩ state = state.close ending.position := by
  induction state using State.close.induct ending.position generalizing ahead with
  | case1 state busy decrease outcome induction =>
      have read : next ⟨ahead, ending, ends⟩ = (ending, ⟨ahead.tail, ending, ends⟩) :=
        next_of_ended ended
      have later :=
        induction ahead.tail fun token member => ended token (List.mem_of_mem_tail member)
      rw [run_of_end (by rw [read]; exact ends) busy, read, later,
        State.close_of_busy _ busy]
  | case2 state busy =>
      have idle : state.isIdle = true := by simpa using busy
      have read : next ⟨ahead, ending, ends⟩ = (ending, ⟨ahead.tail, ending, ends⟩) :=
        next_of_ended ended
      rw [run_of_isIdle (by rw [read]; exact ends) idle, State.close_of_isIdle _ idle]

private theorem parse_append {words ahead : List Token}
    (more : ∀ word ∈ words, word.kind ≠ .endOfInput)
    (ended : ∀ token ∈ ahead, token = ending) :
    parse ⟨words ++ ahead, ending, ends⟩ = .ofWords words ending.position := by
  rw [parse, run_append more, run_eq_close ahead ended]
  rfl

end Tape

/-- The tokens that are left once that many have been read off, as a tape. -/
def Cursor.tape (cursor : Cursor) (count : Nat) : Tape :=
  ⟨cursor.tokens.drop count, cursor.ending, rfl⟩

/-- What is left of the tokens of a text is read as the words that are left. -/
theorem Cursor.parse_tape (cursor : Cursor) (count : Nat) :
    (cursor.tape count).parse =
      .ofWords (cursor.words.drop count) cursor.exhausted.position := by
  rw [tape, cursor.tokens_eq_words_append_ending, List.drop_append]
  apply Tape.parse_append
  · intro word member
    exact Cursor.kind_ne_endOfInput_of_mem_words (List.mem_of_mem_drop member)
  · intro token member
    exact List.mem_singleton.mp (List.mem_of_mem_drop member)

/-- Wherever in a text a parser begins, it reads as if all tokens had been scanned and
those in front of it dropped. The scan of the rest gives what is left of the tokens, and
what has been read once as the end is read from then on. -/
theorem Parser.parse_skip (start : Cursor) (count : Nat) :
    (ofCursor (start.skip count)).parse.1 = (start.tape count).parse.program ∧
      (ofCursor (start.skip count)).parse.2.diagnostics =
        (start.tape count).parse.diagnostics ∧
      ((start.skip count).tokens =
        if count < start.tokens.length then start.tokens.drop count else [start.ending]) ∧
      start.tokens.getLast? = some start.ending ∧
      ((start.skip count).next.1.kind = .endOfInput →
        ∀ later, ((start.skip count).skip later).next.1 = (start.skip count).next.1) := by
  have pulled := Reading.parse_eq_ofWords (start.skip count)
  have taped := start.parse_tape count
  have last : start.tokens.getLast? = some start.ending := by
    rw [start.tokens_eq_words_append_ending, List.getLast?_concat]
  rw [start.words_skip, start.exhausted_skip, ← taped] at pulled
  exact ⟨congrArg Reading.program pulled, congrArg Reading.diagnostics pulled,
    start.tokens_skip count, last, Cursor.next_skip_of_ended⟩

end LispFront
