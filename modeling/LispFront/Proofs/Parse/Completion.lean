import LispFront.Proofs.Parse.Course
import LispFront.Proofs.Parse.Tape
import Mathlib.Logic.Function.Iterate

/-! # Completion

From wherever a parser starts, it comes to the end of its text. It reads each word once
and then the end of the input: as often as it reports to have met it, and once more
(`Parser.completes`). After that there is nothing left to do. -/

namespace LispFront

namespace Event

def token? : Event → Option Token
  | scanned token => some token
  | reachedEnd position => some ⟨.endOfInput, "", position⟩
  | reported _ | parsed .. => none

theorem filterMap_token?_reading {reading : Event} {token : Token}
    (read : reading.token? = some token) (diagnostics : List Diagnostic) :
    (reading :: diagnostics.map reported).filterMap token? = [token] := by
  rw [List.filterMap_cons_some read, List.filterMap_map]
  exact congrArg _ (List.filterMap_none diagnostics)

end Event

namespace State

variable {finished : Array Expression} {frames : List Frame}

/-! ## Reports and readings of the end -/

private theorem countP_meetsEnd_deliver (first : Token) (result : Option Expression) :
    (deliver finished first result frames).2.countP Diagnostic.meetsEnd = 0 := by
  rw [List.countP_eq_zero]
  intro diagnostic member
  simp [meetsEnd_deliver member]

private theorem countP_meetsEnd_abandon (first : Token) :
    (abandon finished first frames).2.countP Diagnostic.meetsEnd = 0 := by
  induction frames generalizing first with
  | nil => rfl
  | cons frame frames induction =>
      cases frame with
      | sequence form opening items => rfl
      | declaration opening name => exact induction opening

private theorem countP_meetsEnd_stepEnd {state : State} (position : Position)
    (busy : state.isIdle = false) :
    (state.stepEnd position).2.countP Diagnostic.meetsEnd = 1 := by
  rcases stepEnd_cases position busy with
    ⟨construct, first, frames, stepped⟩ | ⟨opening, stepped⟩
  · rw [stepped, report, List.countP_cons_of_pos rfl, countP_meetsEnd_abandon]
  · rw [stepped, report, List.countP_cons_of_pos rfl, countP_meetsEnd_deliver]

private theorem filterMap_token?_narrate (state : State) (words : List Token) :
    (state.narrate words).filterMap Event.token? = words := by
  induction words generalizing state with
  | nil => rfl
  | cons word words induction =>
      rw [narrate, List.filterMap_append, Event.filterMap_token?_reading rfl, induction]
      rfl

private theorem filterMap_token?_narrateEnd (state : State) (position : Position) :
    (state.narrateEnd position).filterMap Event.token? =
      List.replicate (1 + (state.close position).2.countP Diagnostic.meetsEnd)
        ⟨.endOfInput, "", position⟩ := by
  induction state using close.induct position with
  | case1 state busy decrease outcome induction =>
      rw [narrateEnd_of_busy position busy, close_of_busy position busy,
        List.filterMap_append, Event.filterMap_token?_reading rfl, induction,
        List.countP_append,
        countP_meetsEnd_stepEnd position busy, Nat.add_comm 1 (1 + _),
        List.replicate_succ]
      rfl
  | case2 state busy =>
      have idle : state.isIdle = true := by simpa using busy
      rw [narrateEnd_of_isIdle position idle, close_of_isIdle position idle]
      rfl

/-! ## How often the end is read -/

private theorem owed_readAll_le (state : State) (words : List Token) :
    (state.readAll words).1.owed ≤ state.owed + words.length := by
  induction words generalizing state with
  | nil => exact Nat.le_refl _
  | cons word words induction =>
      have first := owed_step_le state word
      have later := induction (state.step word).1
      rw [readAll, List.length_cons]
      simp only
      omega

private theorem countP_meetsEnd_close_le (state : State) (position : Position) :
    (state.close position).2.countP Diagnostic.meetsEnd ≤ state.owed := by
  induction state using close.induct position with
  | case1 state busy decrease outcome induction =>
      rw [close_of_busy position busy, List.countP_append,
        countP_meetsEnd_stepEnd position busy]
      have later :
          ((state.stepEnd position).1.close position).2.countP Diagnostic.meetsEnd ≤
            (state.stepEnd position).1.owed := induction
      omega
  | case2 state busy =>
      rw [close_of_isIdle position (by simpa using busy)]
      exact Nat.zero_le _

end State

namespace Reading

theorem countP_meetsEnd_ofWords {words : List Token} (position : Position)
    (more : ∀ word ∈ words, word.kind ≠ .endOfInput) :
    (ofWords words position).diagnostics.countP Diagnostic.meetsEnd =
      ((State.initial.readAll words).1.close position).2.countP Diagnostic.meetsEnd := by
  have none : (State.initial.readAll words).2.countP Diagnostic.meetsEnd = 0 := by
    rw [List.countP_eq_zero]
    intro diagnostic member
    simp [State.meetsEnd_readAll more member]
  rw [ofWords, List.countP_append, none, Nat.zero_add]

theorem countP_meetsEnd_ofWords_le {words : List Token} (position : Position)
    (more : ∀ word ∈ words, word.kind ≠ .endOfInput) :
    (ofWords words position).diagnostics.countP Diagnostic.meetsEnd ≤ words.length := by
  have owed := State.owed_readAll_le .initial words
  have met := State.countP_meetsEnd_close_le (State.initial.readAll words).1 position
  rw [countP_meetsEnd_ofWords position more]
  have none : State.initial.owed = 0 := rfl
  omega

end Reading

namespace Parser

variable (parser : Parser)

def afterParse : Parser :=
  parser.parse.2

def start : Moment :=
  ⟨parser.cursor, parser.log, .initial⟩

/-- A parser comes to an end and leaves nothing of its text. It takes back nothing that
was recorded. It reads the words that are left, and then the end: as often as it reports
to have met it, and once more. Called again, it finds nothing. -/
structure Completes : Prop where
  ends : ∃ last, parser.start.Leads last ∧ last.next? = none ∧
    parser.parse.1.expressions = last.state.finished.toList
  atEnd : parser.afterParse.cursor.atEnd = true
  readings : ∃ events reports,
    parser.afterParse.log.toList = parser.log.toList ++ events ∧
    parser.afterParse.diagnostics = parser.diagnostics ++ reports ∧
    events.filterMap Event.token? =
      parser.cursor.words ++
        List.replicate (1 + reports.countP Diagnostic.meetsEnd) parser.cursor.ending ∧
    reports.countP Diagnostic.meetsEnd ≤ parser.cursor.words.length
  again : ∀ count, (afterParse^[count] parser.afterParse).parse.1 = ⟨[]⟩ ∧
    (afterParse^[count] parser.afterParse).afterParse.diagnostics =
      parser.afterParse.diagnostics

theorem expressions_parse {last : Moment} (leads : parser.start.Leads last)
    (stopped : last.next? = none) :
    parser.parse.1.expressions = last.state.finished.toList := by
  rcases Moment.of_next?_eq_none stopped with ⟨ended, idle⟩
  have ran := (Moment.run_leads leads).trans (run_of_isIdle last.log ended idle)
  exact congrArg (fun outcome => outcome.1.toList) ran

private theorem cursor_afterParse : parser.afterParse.cursor = parser.cursor.exhausted :=
  (run_eq parser.cursor parser.log .initial).2.1

private theorem exists_toList_log_afterParse :
    ∃ expressions diagnostics, parser.afterParse.log.toList =
      parser.log.toList ++ (State.initial.narrate parser.cursor.words ++
        (State.initial.readAll parser.cursor.words).1.narrateEnd
          parser.cursor.exhausted.position ++ [.parsed expressions diagnostics]) := by
  let outcome := run parser.cursor parser.log .initial
  have log : outcome.2.log.toList = _ := (run_eq parser.cursor parser.log .initial).2.2
  refine ⟨outcome.1.size, outcome.2.diagnostics.length, ?_⟩
  rw [afterParse, parse, Array.toList_push, log, List.append_assoc]

private theorem parse_of_atEnd {parser : Parser} (ended : parser.cursor.rest = []) :
    parser.parse.1 = ⟨[]⟩ ∧ parser.afterParse.diagnostics = parser.diagnostics := by
  have noWords : parser.cursor.words = [] := by
    apply Cursor.words_eq_nil
    rw [Cursor.skipLayout, ended]
    rfl
  rw [program_parse, afterParse, diagnostics_parse, noWords, Reading.ofWords_nil]
  exact ⟨rfl, List.append_nil _⟩

theorem completes : Completes parser := by
  have more : ∀ word ∈ parser.cursor.words, word.kind ≠ .endOfInput := fun _ =>
    Cursor.kind_ne_endOfInput_of_mem_words
  constructor
  case ends =>
    rcases parser.start.exists_last with ⟨last, leads, stopped⟩
    exact ⟨last, leads, stopped, parser.expressions_parse leads stopped⟩
  case atEnd =>
    rw [cursor_afterParse]
    rfl
  case readings =>
    rcases parser.exists_toList_log_afterParse with ⟨expressions, diagnostics, log⟩
    refine ⟨_, _, log, parser.diagnostics_parse, ?_,
      Reading.countP_meetsEnd_ofWords_le _ more⟩
    rw [List.filterMap_append, List.filterMap_append, State.filterMap_token?_narrate,
      State.filterMap_token?_narrateEnd, Reading.countP_meetsEnd_ofWords _ more]
    exact List.append_nil _
  case again =>
    have nothingLeft (count : Nat) :
        (afterParse^[count] parser.afterParse).cursor.rest = [] ∧
          (afterParse^[count] parser.afterParse).diagnostics =
            parser.afterParse.diagnostics := by
      induction count with
      | zero => exact ⟨congrArg Cursor.rest parser.cursor_afterParse, rfl⟩
      | succ count induction =>
          rw [Function.iterate_succ_apply', cursor_afterParse,
            (parse_of_atEnd induction.1).2]
          exact ⟨rfl, induction.2⟩
    intro count
    rcases nothingLeft count with ⟨ended, same⟩
    rcases parse_of_atEnd ended with ⟨program, diagnostics⟩
    exact ⟨program, diagnostics.trans same⟩

end Parser

end LispFront
