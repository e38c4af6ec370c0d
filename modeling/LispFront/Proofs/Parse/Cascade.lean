import LispFront.Proofs.Parse.Course
import LispFront.Proofs.Parse.Openings
import LispFront.Proofs.Token.Placement

/-! # The cascade of the end

When the input ends, what is open is given up from the inside outwards. Each run that
meets the end reports it, and the run around it reports the loss and meets the end in turn
(`State.close_eq_cascade`). From the first report of the end on, this is all that a text
reports, and nothing is finished any more (`Reading.cascades_ofText`). -/

namespace LispFront

/-- A construct has met the end at `position`. Of the constructs around it, each in `lost`
has lost the element that begins with the bracket given, and then has met the end
itself. -/
def Diagnostic.cascade (position : Position) (construct : String)
    (lost : List (Token × String)) : List Diagnostic :=
  .unexpectedEnd construct position ::
    lost.flatMap fun loss => [.elementDropped loss.1, .unexpectedEnd loss.2 position]

namespace State

variable {finished : Array Expression} {frames : List Frame} {position : Position}

theorem isIdle_of_mode {mode : Mode} (begun : mode ≠ .expression) :
    isIdle ⟨finished, frames, mode⟩ = false := by
  rcases frames with _ | ⟨frame, frames⟩
  · cases mode <;> first | rfl | exact (begun rfl).elim
  · rfl

theorem close_of_report {state : State} {diagnostic : Diagnostic}
    {outcome : State × List Diagnostic} (busy : state.isIdle = false)
    (stepped : state.stepEnd position = report diagnostic outcome) :
    (state.close position).2 =
      diagnostic :: (outcome.2 ++ (outcome.1.close position).2) := by
  rw [close_of_busy position busy, stepped]
  rfl

theorem close_head (position : Position) (finished : Array Expression)
    (frames : List Frame) (opening : Token) :
    (close position ⟨finished, frames, .head opening⟩).2 =
      .invalidFunctionName .endOfInput position ::
        ((deliver finished opening none frames).2 ++
          ((deliver finished opening none frames).1.close position).2) :=
  close_of_report (isIdle_of_mode (by simp)) rfl

theorem abandon_cases (finished : Array Expression) (first : Token)
    (frames : List Frame) :
    abandon finished first frames = (⟨finished, [], .expression⟩, []) ∨
      ∃ form opening items around lost,
        abandon finished first frames =
          (⟨finished, .sequence form opening items :: around, .expression⟩,
            [.elementDropped lost]) ∧
        lost :: opening :: around.map Frame.opening <:+
          first :: frames.map Frame.opening := by
  induction frames generalizing first with
  | nil => exact .inl rfl
  | cons frame frames induction =>
      cases frame with
      | sequence form opening items =>
          exact .inr ⟨form, opening, items, frames, first, rfl, List.suffix_rfl⟩
      | declaration opening name =>
          rcases induction opening with
            all | ⟨form, bracket, items, around, lost, left, within⟩
          · exact .inl all
          · exact .inr
              ⟨form, bracket, items, around, lost, left,
                within.trans (List.suffix_cons _ _)⟩

/-- Except where a head is missing, the end is reported as such, and the innermost
construct is given up. What is open around the others makes no difference to that. -/
theorem stepEnd_eq {state : State} (position : Position) (busy : state.isIdle = false)
    (begun : ∀ opening, state.mode ≠ .head opening) :
    ∃ construct first frames,
      state.openings = first :: frames.map Frame.opening ∧ ∀ outer,
        stepEnd ⟨state.finished, state.frames ++ outer, state.mode⟩ position =
          report (.unexpectedEnd construct position)
            (abandon state.finished first (frames ++ outer)) := by
  rcases state with ⟨finished, frames, mode⟩
  cases mode with
  | expression =>
      rcases frames with _ | ⟨frame, frames⟩
      · cases busy
      cases frame with
      | sequence form opening items =>
          exact ⟨form.construct, opening, frames, rfl, fun _ => rfl⟩
      | declaration opening name =>
          exact ⟨declarationConstruct, opening, frames, rfl, fun _ => rfl⟩
  | head opening => exact (begun opening rfl).elim
  | name opening => exact ⟨declarationConstruct, opening, frames, rfl, fun _ => rfl⟩
  | skip opening nested => exact ⟨skippedConstruct, opening, frames, rfl, fun _ => rfl⟩

theorem close_eq_cascade {state : State} (position : Position)
    (busy : state.isIdle = false) (begun : ∀ opening, state.mode ≠ .head opening) :
    ∃ construct lost,
      (state.close position).2 = Diagnostic.cascade position construct lost ∧
        (lost.map Prod.fst).Sublist state.openings := by
  induction state using close.induct position with
  | case1 state busy decrease outcome induction =>
      rcases stepEnd_eq position busy begun with
        ⟨construct, first, frames, openings, stepped⟩
      replace stepped := stepped []
      rw [List.append_nil, List.append_nil] at stepped
      rw [close_of_report busy stepped]
      simp only [outcome, stepped, report] at induction
      rcases abandon_cases state.finished first frames with
        all | ⟨form, opening, items, around, lost, left, within⟩
      · have idle : isIdle ⟨state.finished, [], .expression⟩ = true := rfl
        refine ⟨construct, [], ?_, List.nil_sublist _⟩
        rw [all, close_of_isIdle position idle]
        rfl
      · -- The run that has lost an element is the next to meet the end.
        rw [left] at induction ⊢
        rcases induction rfl (by simp) with ⟨next, later, reports, brackets⟩
        refine ⟨construct, (lost, next) :: later, by rw [reports]; rfl, ?_⟩
        rw [openings]
        exact (brackets.cons_cons lost).trans within.sublist
  | case2 state idle => exact (idle busy).elim

theorem close_of_ne_head {state : State} (position : Position)
    (begun : ∀ opening, state.mode ≠ .head opening) :
    (state.close position).2 = [] ∨
      ∃ construct lost,
        (state.close position).2 = Diagnostic.cascade position construct lost ∧
          (lost.map Prod.fst).Sublist state.openings := by
  by_cases idle : state.isIdle = true
  · exact .inl (congrArg Prod.snd (close_of_isIdle position idle))
  · exact .inr (close_eq_cascade position (by simpa using idle) begun)

theorem dropWhile_close_head (opening : Token) :
    (close position ⟨finished, frames, .head opening⟩).2.dropWhile (!·.isUnexpectedEnd) =
      ((deliver finished opening none frames).1.close position).2.dropWhile
        (!·.isUnexpectedEnd) := by
  rw [close_head, List.dropWhile_cons_of_pos rfl]
  apply List.dropWhile_append_of_pos
  intro diagnostic member
  rcases mem_deliver member with rfl | ⟨_, _, rfl⟩ | ⟨_, _, rfl⟩
  · rfl
  · rfl
  · rfl

theorem mode_deliver_ne_head (finished : Array Expression) (first : Token)
    (result : Option Expression) (frames : List Frame) (opening : Token) :
    (deliver finished first result frames).1.mode ≠ .head opening := by
  rcases frames with _ | ⟨frame, frames⟩
  · cases result <;> nofun
  cases frame with
  | sequence form bracket items => cases result <;> nofun
  | declaration bracket name =>
      rcases result with _ | expression
      · nofun
      · cases expression <;> nofun

private theorem dropWhile_close (state : State) (position : Position) :
    (state.close position).2.dropWhile (!·.isUnexpectedEnd) = [] ∨
      ∃ construct lost,
        (state.close position).2.dropWhile (!·.isUnexpectedEnd) =
          Diagnostic.cascade position construct lost ∧
        (lost.map Prod.fst).Sublist state.openings := by
  have plain (state : State) (begun : ∀ opening, state.mode ≠ .head opening) :
      (state.close position).2.dropWhile (!·.isUnexpectedEnd) = [] ∨
        ∃ construct lost,
          (state.close position).2.dropWhile (!·.isUnexpectedEnd) =
            Diagnostic.cascade position construct lost ∧
          (lost.map Prod.fst).Sublist state.openings := by
    rcases close_of_ne_head position begun with
      none | ⟨construct, lost, reports, brackets⟩
    · rw [none]
      exact .inl rfl
    · rw [reports]
      exact .inr ⟨construct, lost, rfl, brackets⟩
  rcases state with ⟨finished, frames, mode⟩
  cases mode with
  | head opening =>
      rw [dropWhile_close_head]
      rcases plain _ (mode_deliver_ne_head finished opening none frames) with
        none | ⟨construct, lost, reports, brackets⟩
      · exact .inl none
      · rw [openings_deliver] at brackets
        exact .inr ⟨construct, lost, reports, brackets.trans (List.sublist_cons_self _ _)⟩
  | expression => exact plain _ (by simp)
  | name opening => exact plain _ (by simp)
  | skip opening nested => exact plain _ (by simp)

end State

namespace Reading

open State

/-- What has been opened and not closed stands in the text from the inside outwards, each
bracket before the last. -/
theorem pairwise_openings (source : String) :
    (initial.readAll (Cursor.ofString source).words).1.openings.Pairwise
      fun inner outer => outer.position < inner.position := by
  have within := sublist_openings_readAll initial (Cursor.ofString source).words
  rw [openings_initial, List.append_nil] at within
  have ordered := (Cursor.ofString source).pairwise_words.filter (·.kind.opens)
  exact (List.pairwise_reverse.mpr ordered).sublist within

/-- What a text reports from the first report of the end on. -/
structure Cascades (source : String) : Prop where
  shape : ∃ ending construct lost,
    (Cursor.ofString source).tokens.getLast? = some ending ∧ ending.kind = .endOfInput ∧
    (ofText source).diagnostics.dropWhile (!·.isUnexpectedEnd) =
      Diagnostic.cascade ending.position construct lost ∧
    (∀ loss ∈ lost, loss.1 ∈ (Cursor.ofString source).words ∧ loss.1.kind.opens = true) ∧
    lost.Pairwise fun inner outer => outer.1.position < inner.1.position
  /-- From the reading on that has first brought it to light, nothing is finished. -/
  settled : ∀ moment later, (Moment.ofText source).Leads moment →
    moment.next? = some later →
      (∃ diagnostic ∈ later.diagnostics, diagnostic.isUnexpectedEnd = true) →
    moment.state.finished.toList = (ofText source).program.expressions ∧
      later.state.finished.toList = (ofText source).program.expressions

theorem cascades_ofText (source : String)
    (ended : ∃ diagnostic ∈ (ofText source).diagnostics,
      diagnostic.isUnexpectedEnd = true) :
    Cascades source := by
  constructor
  case shape =>
    let read := initial.readAll (Cursor.ofString source).words
    let position := (Cursor.ofString source).exhausted.position
    have last : (Cursor.ofString source).tokens.getLast? =
        some ⟨.endOfInput, "", position⟩ := by
      rw [Cursor.tokens_eq_words_append, List.getLast?_concat]
    have unended : ∀ diagnostic ∈ read.2, (!diagnostic.isUnexpectedEnd) = true := by
      intro diagnostic member
      have misses :=
        meetsEnd_readAll (fun _ => Cursor.kind_ne_endOfInput_of_mem_words) member
      cases diagnostic <;> first | rfl | cases misses
    have reports : (ofText source).diagnostics.dropWhile (!·.isUnexpectedEnd) =
        (read.1.close position).2.dropWhile (!·.isUnexpectedEnd) := by
      rw [ofText_eq_ofWords]
      exact List.dropWhile_append_of_pos unended
    rcases dropWhile_close read.1 position with
      none | ⟨construct, lost, cascade, brackets⟩
    · rw [← reports, List.dropWhile_eq_nil_iff] at none
      rcases ended with ⟨diagnostic, member, ended⟩
      have misses := none diagnostic member
      rw [ended] at misses
      cases misses
    · refine ⟨_, construct, lost, last, rfl, reports.trans cascade,
        fun loss member => ?_, ?_⟩
      · have opened := (sublist_openings_readAll initial _).subset
          (brackets.subset (List.mem_map_of_mem member))
        simpa using opened
      · exact List.pairwise_map.mp ((pairwise_openings source).sublist brackets)
  case settled =>
    intro moment later leads reads ended
    have nothing : moment.cursor.words = [] := by
      rcases Moment.cases_of_unexpectedEnd reads ended with earlier | nothing
      · exact Moment.words_eq_nil_of_unexpectedEnd leads earlier
      · exact nothing
    have program := Moment.program_of_leads leads
    have programLater := Moment.program_of_leads (leads.tail reads)
    rw [nothing] at program
    rw [Moment.words_eq_nil_of_next? reads nothing] at programLater
    exact ⟨program.symm, programLater.symm⟩

theorem cascades_of_nested :
    (∃ diagnostic ∈ (ofText "x (a [b (fn f [y").diagnostics,
      diagnostic.isUnexpectedEnd = true) ∧ Cascades "x (a [b (fn f [y" := by
  have ended : ∃ diagnostic ∈ (ofText "x (a [b (fn f [y").diagnostics,
      diagnostic.isUnexpectedEnd = true := by
    decide +kernel
  exact ⟨ended, cascades_ofText _ ended⟩

end Reading

end LispFront
