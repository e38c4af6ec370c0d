import LispFront.Proofs.Parse.Ending
import LispFront.Proofs.Parse.Truncation
import Mathlib.Logic.Relation

/-! # The course of a run

A run goes from one reading to the next. Wherever it stands, what it will give is settled
by where it stands (`Moment.program_of_leads`), and once the end of the input has been
reported there are no more words (`Moment.words_eq_nil_of_unexpectedEnd`). -/

namespace LispFront

def Diagnostic.isUnexpectedEnd : Diagnostic → Bool
  | unexpectedEnd .. => true
  | _ => false

theorem Diagnostic.meetsEnd_of_isUnexpectedEnd {diagnostic : Diagnostic}
    (ended : diagnostic.isUnexpectedEnd = true) : diagnostic.meetsEnd = true := by
  cases diagnostic <;> first | rfl | cases ended

/-- Where a run stands between two readings. -/
structure Moment where
  cursor : Cursor
  log : Array Event
  state : State

namespace Moment

def ofText (source : String) : Moment :=
  ⟨.ofString source, #[], .initial⟩

def diagnostics (moment : Moment) : List Diagnostic :=
  Parser.diagnostics ⟨moment.cursor, moment.log⟩

def next? (moment : Moment) : Option Moment :=
  let (token, following) := moment.cursor.next
  if token.kind = .endOfInput then
    if moment.state.isIdle then
      none
    else
      let outcome := moment.state.stepEnd token.position
      some
        ⟨following,
          Parser.record moment.log (.reachedEnd token.position) outcome.2, outcome.1⟩
  else
    let outcome := moment.state.step token
    some ⟨following, Parser.record moment.log (.scanned token) outcome.2, outcome.1⟩

/-- Some readings lead from one moment to the other. -/
def Leads : Moment → Moment → Prop :=
  Relation.ReflTransGen fun moment later => moment.next? = some later

variable {moment later : Moment}

/-! ## Single readings -/

theorem next?_cases (reads : moment.next? = some later) :
    (moment.cursor.next.1.kind ≠ .endOfInput ∧
      later = ⟨moment.cursor.next.2,
        Parser.record moment.log (.scanned moment.cursor.next.1)
          (moment.state.step moment.cursor.next.1).2,
        (moment.state.step moment.cursor.next.1).1⟩) ∨
    moment.cursor.next.1.kind = .endOfInput ∧ moment.state.isIdle = false ∧
      later = ⟨moment.cursor.next.2,
        Parser.record moment.log (.reachedEnd moment.cursor.next.1.position)
          (moment.state.stepEnd moment.cursor.next.1.position).2,
        (moment.state.stepEnd moment.cursor.next.1.position).1⟩ := by
  unfold next? at reads
  split at reads
  rename_i token following read
  simp only [read]
  split at reads
  case isTrue ended =>
    by_cases idle : moment.state.isIdle = true
    · rw [if_pos idle] at reads
      cases reads
    · rw [if_neg idle] at reads
      exact .inr ⟨ended, by simpa using idle, (Option.some.inj reads).symm⟩
  case isFalse more => exact .inl ⟨more, (Option.some.inj reads).symm⟩

theorem run_next? (reads : moment.next? = some later) :
    Parser.run moment.cursor moment.log moment.state =
      Parser.run later.cursor later.log later.state := by
  rcases next?_cases reads with ⟨more, rfl⟩ | ⟨ended, busy, rfl⟩
  · exact Parser.run_of_word moment.log moment.state more
  · exact Parser.run_of_end moment.log ended busy

private theorem diagnostics_record (cursor : Cursor) (log : Array Event) (state : State)
    {reading : Event} (silent : reading.diagnostic? = none) (reports : List Diagnostic) :
    diagnostics ⟨cursor, Parser.record log reading reports, state⟩ =
      log.toList.filterMap Event.diagnostic? ++ reports := by
  rw [diagnostics, Parser.diagnostics, Parser.record, Array.toList_appendList,
    Array.toList_push, List.append_assoc, List.filterMap_append, List.singleton_append,
    List.filterMap_cons_none silent,
    Event.filterMap_map_reported]

/-! ## The end

Only a reading of the end reports the end, and then no word is left. -/

theorem words_eq_nil_of_next? (reads : moment.next? = some later)
    (before : moment.cursor.words = []) : later.cursor.words = [] := by
  have left : later.cursor = moment.cursor.next.2 := by
    rcases next?_cases reads with ⟨-, rfl⟩ | ⟨-, -, rfl⟩
    · rfl
    · rfl
  rw [left, Cursor.words_next, before, List.tail_nil]

theorem cases_of_unexpectedEnd (reads : moment.next? = some later)
    (ended : ∃ diagnostic ∈ later.diagnostics, diagnostic.isUnexpectedEnd = true) :
    (∃ diagnostic ∈ moment.diagnostics, diagnostic.isUnexpectedEnd = true) ∨
      moment.cursor.words = [] := by
  rcases ended with ⟨diagnostic, member, ended⟩
  rcases next?_cases reads with ⟨more, rfl⟩ | ⟨atEnd, -, rfl⟩
  · rw [diagnostics_record _ _ _ rfl] at member
    rcases List.mem_append.mp member with earlier | new
    · exact .inl ⟨diagnostic, earlier, ended⟩
    · have misses := State.meetsEnd_step more new
      rw [Diagnostic.meetsEnd_of_isUnexpectedEnd ended] at misses
      cases misses
  · exact .inr (Cursor.words_eq_nil_of_kind atEnd)

theorem words_eq_nil_of_unexpectedEnd {source : String}
    (leads : (ofText source).Leads moment)
    (ended : ∃ diagnostic ∈ moment.diagnostics, diagnostic.isUnexpectedEnd = true) :
    moment.cursor.words = [] := by
  induction leads with
  | refl =>
      rcases ended with ⟨_, member, _⟩
      cases member
  | tail earlier reads induction =>
      rcases cases_of_unexpectedEnd reads ended with ended | nothing
      · exact words_eq_nil_of_next? reads (induction ended)
      · exact words_eq_nil_of_next? reads nothing

/-! ## The end of a run -/

theorem work_lt_of_next? (reads : moment.next? = some later) :
    Parser.work later.cursor later.state < Parser.work moment.cursor moment.state := by
  rcases next?_cases reads with ⟨more, rfl⟩ | ⟨-, busy, rfl⟩
  · exact Parser.work_step_lt moment.state rfl more
  · exact Parser.work_stepEnd_lt rfl busy

theorem exists_last (moment : Moment) :
    ∃ last, moment.Leads last ∧ last.next? = none := by
  cases reads : moment.next? with
  | none => exact ⟨moment, .refl, reads⟩
  | some later =>
      have less := work_lt_of_next? reads
      rcases exists_last later with ⟨last, leads, stopped⟩
      exact ⟨last, leads.head reads, stopped⟩
termination_by Parser.work moment.cursor moment.state

theorem of_next?_eq_none (stopped : moment.next? = none) :
    moment.cursor.next.1.kind = .endOfInput ∧ moment.state.isIdle = true := by
  unfold next? at stopped
  split at stopped
  rename_i token following read
  rw [read]
  split at stopped
  case isTrue ended =>
    by_cases idle : moment.state.isIdle = true
    · exact ⟨ended, idle⟩
    · rw [if_neg idle] at stopped
      cases stopped
  case isFalse more => cases stopped

/-! ## What a run gives -/

theorem run_leads (leads : moment.Leads later) :
    Parser.run moment.cursor moment.log moment.state =
      Parser.run later.cursor later.log later.state := by
  induction leads with
  | refl => rfl
  | tail _ reads induction => exact induction.trans (run_next? reads)

theorem program_of_leads {source : String} (leads : (ofText source).Leads moment) :
    (Reading.ofText source).program.expressions =
      (moment.state.readAll moment.cursor.words).1.finished.toList := by
  have finished := (Parser.run_eq moment.cursor moment.log moment.state).1
  rw [State.finished_close, ← run_leads leads] at finished
  rw [← finished]
  rfl

end Moment

end LispFront
