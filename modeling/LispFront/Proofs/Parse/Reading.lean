import LispFront.Parse.Parser
import LispFront.Proofs.Token.Words

/-! # Reading a list of words

A parser that pulls its tokens off a cursor gives what the same steps give on the list of
words: the words are read one after the other, and then the open constructs meet the end
(`ofText_eq_ofWords`). What happens meanwhile is recorded in the same order
(`Parser.run_eq`). -/

namespace LispFront

namespace Event

theorem filterMap_map_reported (diagnostics : List Diagnostic) :
    (diagnostics.map reported).filterMap diagnostic? = diagnostics := by
  rw [List.filterMap_map]
  exact List.filterMap_some

theorem filter_isLogged_map_reported (diagnostics : List Diagnostic) :
    (diagnostics.map reported).filter isLogged = diagnostics.map reported := by
  rw [List.filter_eq_self]
  simp [isLogged]

theorem filterMap_diagnostic?_filter (events : List Event) :
    (events.filter isLogged).filterMap diagnostic? = events.filterMap diagnostic? := by
  have kept (event : Event) :
      (if event.isLogged = true then event.diagnostic? else none) =
        event.diagnostic? := by
    cases event <;> rfl
  simp only [List.filterMap_filter, kept]

end Event

namespace State

def readAll (state : State) : List Token → State × List Diagnostic
  | [] => (state, [])
  | word :: words =>
      let first := state.step word
      let later := first.1.readAll words
      (later.1, first.2 ++ later.2)

def close (position : Position) (state : State) : Array Expression × List Diagnostic :=
  if busy : state.isIdle = false then
    have := owed_stepEnd_lt position busy
    let first := state.stepEnd position
    let later := first.1.close position
    (later.1, first.2 ++ later.2)
  else
    (state.finished, [])
termination_by state.owed

theorem readAll_cons (state : State) (word : Token) (words : List Token) :
    state.readAll (word :: words) =
      (((state.step word).1.readAll words).1,
        (state.step word).2 ++ ((state.step word).1.readAll words).2) := rfl

theorem readAll_singleton (state : State) (word : Token) :
    state.readAll [word] = state.step word := by
  simp [readAll]

theorem readAll_append (state : State) (first second : List Token) :
    state.readAll (first ++ second) =
      (((state.readAll first).1.readAll second).1,
        (state.readAll first).2 ++ ((state.readAll first).1.readAll second).2) := by
  induction first generalizing state with
  | nil => rfl
  | cons word words induction =>
      simp only [List.cons_append, readAll, induction, List.append_assoc]

/-- What is logged while words are read: each word, and behind it what it brings to
light. -/
def narrate (state : State) : List Token → List Event
  | [] => []
  | word :: words =>
      (.scanned word :: (state.step word).2.map .reported) ++
        (state.step word).1.narrate words

private theorem filterMap_diagnostic?_narrate (state : State) (words : List Token) :
    (state.narrate words).filterMap Event.diagnostic? = (state.readAll words).2 := by
  induction words generalizing state with
  | nil => rfl
  | cons word words induction =>
      rw [narrate, List.filterMap_append, List.filterMap_cons_none rfl,
        Event.filterMap_map_reported, induction, readAll]

theorem close_of_isIdle {state : State} (position : Position)
    (idle : state.isIdle = true) : state.close position = (state.finished, []) := by
  rw [close]
  simp [idle]

theorem close_of_busy {state : State} (position : Position)
    (busy : state.isIdle = false) :
    state.close position =
      (((state.stepEnd position).1.close position).1,
        (state.stepEnd position).2 ++ ((state.stepEnd position).1.close position).2) := by
  rw [close]
  simp [busy]

/-- What happens when the input ends: the end is read for each construct that is open,
with what that brings to light, and once more where nothing is open. -/
def narrateEnd (position : Position) (state : State) : List Event :=
  if busy : state.isIdle = false then
    have := owed_stepEnd_lt position busy
    let first := state.stepEnd position
    (.reachedEnd position :: first.2.map .reported) ++ first.1.narrateEnd position
  else
    [.reachedEnd position]
termination_by state.owed

theorem narrateEnd_of_isIdle {state : State} (position : Position)
    (idle : state.isIdle = true) :
    state.narrateEnd position = [.reachedEnd position] := by
  rw [narrateEnd]
  simp [idle]

theorem narrateEnd_of_busy {state : State} (position : Position)
    (busy : state.isIdle = false) :
    state.narrateEnd position =
      (.reachedEnd position :: (state.stepEnd position).2.map .reported) ++
        (state.stepEnd position).1.narrateEnd position := by
  rw [narrateEnd]
  simp [busy]

private theorem filter_isLogged_narrate (state : State) (words : List Token) :
    (state.narrate words).filter Event.isLogged = state.narrate words := by
  induction words generalizing state with
  | nil => rfl
  | cons word words induction =>
      rw [narrate, List.filter_append, List.filter_cons_of_pos rfl,
        Event.filter_isLogged_map_reported, induction]

private theorem filter_isLogged_narrateEnd (state : State) (position : Position) :
    (state.narrateEnd position).filter Event.isLogged =
      (state.close position).2.map .reported := by
  induction state using close.induct position with
  | case1 state busy decrease outcome induction =>
      rw [narrateEnd_of_busy position busy, close_of_busy position busy,
        List.filter_append, List.filter_cons_of_neg (by simp [Event.isLogged]),
        Event.filter_isLogged_map_reported, induction,
        List.map_append]
  | case2 state busy =>
      have idle : state.isIdle = true := by simpa using busy
      rw [narrateEnd_of_isIdle position idle, close_of_isIdle position idle]
      rfl

theorem eq_of_isIdle {state : State} (idle : state.isIdle = true) :
    state = ⟨state.finished, [], .expression⟩ := by
  rcases state with ⟨finished, _ | ⟨frame, frames⟩, mode⟩
  · cases mode with
    | expression => rfl
    | head opening => cases idle
    | name opening => cases idle
    | skip opening nested => cases idle
  · cases idle

end State

namespace Parser

private theorem toList_record (log : Array Event) (reading : Event)
    (diagnostics : List Diagnostic) :
    (record log reading diagnostics).toList =
      log.toList ++ (reading :: diagnostics.map .reported) := by
  rw [record, Array.toList_appendList, Array.toList_push, List.append_assoc]
  rfl

theorem run_of_end {cursor : Cursor} (log : Array Event) {state : State}
    (ended : cursor.next.1.kind = .endOfInput) (busy : state.isIdle = false) :
    run cursor log state =
      run cursor.next.2
        (record log (.reachedEnd cursor.next.1.position)
          (state.stepEnd cursor.next.1.position).2)
        (state.stepEnd cursor.next.1.position).1 := by
  rw [run]
  split
  rename_i reading
  simp only [reading] at ended ⊢
  simp [ended, busy]

theorem run_of_isIdle {cursor : Cursor} (log : Array Event) {state : State}
    (ended : cursor.next.1.kind = .endOfInput) (idle : state.isIdle = true) :
    run cursor log state =
      (state.finished,
        ⟨cursor.next.2, log.push (.reachedEnd cursor.next.1.position)⟩) := by
  rw [run]
  split
  rename_i reading
  simp only [reading] at ended ⊢
  simp [ended, idle]

theorem run_of_word {cursor : Cursor} (log : Array Event) (state : State)
    (more : cursor.next.1.kind ≠ .endOfInput) :
    run cursor log state =
      run cursor.next.2 (record log (.scanned cursor.next.1) (state.step cursor.next.1).2)
        (state.step cursor.next.1).1 := by
  rw [run]
  split
  rename_i reading
  simp only [reading] at more ⊢
  simp [more]

/-- A run reads the words and then meets the end, and leaves nothing of the text. It
records each word and what it brings to light, and then each reading of the end and what
that brings to light. -/
theorem run_eq (cursor : Cursor) (log : Array Event) (state : State) :
    (run cursor log state).1 =
        ((state.readAll cursor.words).1.close cursor.exhausted.position).1 ∧
      (run cursor log state).2.cursor = cursor.exhausted ∧
      (run cursor log state).2.log.toList =
        log.toList ++ (state.narrate cursor.words ++
          (state.readAll cursor.words).1.narrateEnd cursor.exhausted.position) := by
  induction cursor, log, state using run.induct with
  | case1 cursor log state token following reading ended busy decrease
      outcome induction =>
      rcases Prod.ext_iff.mp reading with ⟨rfl, rfl⟩
      have nothing := Cursor.rest_skipLayout_eq_nil ended
      have noWords := Cursor.words_eq_nil_of_kind ended
      have noWordsLater : cursor.next.2.words = [] := by
        rw [Cursor.words_next, noWords, List.tail_nil]
      have position : cursor.next.1.position = cursor.exhausted.position := by
        rw [Cursor.next_eq_exhausted nothing]
      rw [noWordsLater, Cursor.exhausted_next, toList_record, ← position] at induction
      rw [noWords, State.readAll, State.close_of_busy _ busy,
        State.narrateEnd_of_busy _ busy, ← position, run_of_end log ended busy]
      refine ⟨induction.1, induction.2.1, induction.2.2.trans ?_⟩
      rw [List.append_assoc]
      rfl
  | case2 cursor log state token following reading ended busy =>
      rcases Prod.ext_iff.mp reading with ⟨rfl, rfl⟩
      have read := Cursor.next_eq_exhausted (Cursor.rest_skipLayout_eq_nil ended)
      have idle : state.isIdle = true := by simpa using busy
      rw [Cursor.words_eq_nil_of_kind ended, State.readAll, State.close_of_isIdle _ idle,
        State.narrateEnd_of_isIdle _ idle, run_of_isIdle log ended idle, read]
      exact ⟨rfl, rfl, Array.toList_push⟩
  | case3 cursor log state token following reading more decrease outcome induction =>
      rcases Prod.ext_iff.mp reading with ⟨rfl, rfl⟩
      rw [Cursor.exhausted_next, toList_record] at induction
      rw [Cursor.words_eq_cons_of_kind more, State.readAll, run_of_word log state more]
      refine ⟨induction.1, induction.2.1, induction.2.2.trans ?_⟩
      rw [State.narrate, List.append_assoc, List.append_assoc]

theorem logged_run (cursor : Cursor) (log : Array Event) (state : State) :
    (run cursor log state).2.log.toList.filter Event.isLogged =
      log.toList.filter Event.isLogged ++ (state.narrate cursor.words ++
        ((state.readAll cursor.words).1.close cursor.exhausted.position).2.map
          .reported) := by
  rw [(run_eq cursor log state).2.2, List.filter_append, List.filter_append,
    State.filter_isLogged_narrate, State.filter_isLogged_narrateEnd]

private theorem diagnostics_run (cursor : Cursor) (log : Array Event) (state : State) :
    (run cursor log state).2.diagnostics =
      log.toList.filterMap Event.diagnostic? ++ ((state.readAll cursor.words).2 ++
        ((state.readAll cursor.words).1.close cursor.exhausted.position).2) := by
  rw [diagnostics, ← Event.filterMap_diagnostic?_filter, logged_run,
    List.filterMap_append, List.filterMap_append, Event.filterMap_diagnostic?_filter,
    State.filterMap_diagnostic?_narrate,
    Event.filterMap_map_reported]

end Parser

namespace Reading

/-- What a list of words is read as when the input ends after it, at `position`. -/
def ofWords (words : List Token) (position : Position) : Reading :=
  let read := State.initial.readAll words
  let closed := read.1.close position
  ⟨⟨closed.1.toList⟩, read.2 ++ closed.2⟩

theorem ofWords_nil (position : Position) : ofWords [] position = ⟨⟨[]⟩, []⟩ := by
  rw [ofWords, State.readAll, State.close_of_isIdle position rfl]
  rfl

end Reading

namespace Parser

theorem program_parse (parser : Parser) :
    parser.parse.1 =
      (Reading.ofWords parser.cursor.words parser.cursor.exhausted.position).program := by
  have finished := (run_eq parser.cursor parser.log .initial).1
  rw [Reading.ofWords, ← finished]
  rfl

theorem diagnostics_parse (parser : Parser) :
    parser.parse.2.diagnostics =
      parser.diagnostics ++
        (Reading.ofWords parser.cursor.words
          parser.cursor.exhausted.position).diagnostics := by
  have reported := diagnostics_run parser.cursor parser.log .initial
  have silent (finished diagnostics : Nat) :
      [Event.parsed finished diagnostics].filterMap Event.diagnostic? = [] :=
    rfl
  rw [diagnostics] at reported
  rw [diagnostics, parse, Array.toList_push, List.filterMap_append, silent,
    List.append_nil, reported]
  rfl

end Parser

namespace Reading

theorem parse_eq_ofWords (cursor : Cursor) :
    (⟨(Parser.ofCursor cursor).parse.1, (Parser.ofCursor cursor).parse.2.diagnostics⟩ :
      Reading) = ofWords cursor.words cursor.exhausted.position := by
  rw [Parser.program_parse, Parser.diagnostics_parse]
  rfl

theorem ofText_eq_ofWords (source : String) :
    ofText source =
      ofWords (Cursor.ofString source).words
        (Cursor.ofString source).exhausted.position :=
  parse_eq_ofWords (Cursor.ofString source)

end Reading

end LispFront
