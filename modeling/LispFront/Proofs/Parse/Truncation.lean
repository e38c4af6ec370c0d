import LispFront.Proofs.Parse.Concatenation
import LispFront.Proofs.Parse.Transition

/-! # Truncation

What has been finished stays finished, and the end of the input finishes nothing
(`State.finished_close`). So the first lines of a text give by themselves what they give
in the whole text, as far as they go (`Reading.prefix_ofText_append_newline`). -/

namespace LispFront

namespace State

variable {finished : Array Expression} {frames : List Frame} {mode : Mode} {token : Token}
  {outcome : State × List Diagnostic}

/-! ## Words -/

private theorem prefix_finished_deliver (first : Token) (result : Option Expression) :
    finished.toList <+: (deliver finished first result frames).1.finished.toList := by
  rcases frames with _ | ⟨frame, frames⟩
  · cases result with
    | none => exact List.prefix_rfl
    | some expression =>
        rw [deliver, Array.toList_push]
        exact List.prefix_append _ _
  cases frame with
  | sequence form opening items => cases result <;> exact List.prefix_rfl
  | declaration opening name =>
      rcases result with _ | expression
      · exact List.prefix_rfl
      · cases expression <;> exact List.prefix_rfl

private theorem prefix_finished_passOver (opening : Token) (nested : Nat) :
    finished.toList <+:
      (passOver finished frames opening nested token).1.finished.toList := by
  rcases passOver_cases finished frames token opening nested with
    ⟨nested', passed⟩ | ⟨-, given⟩
  · exact passed ▸ List.prefix_rfl
  · rw [given]
    exact prefix_finished_deliver opening none

theorem Transition.prefix_finished
    (transition : Transition finished token frames mode outcome) :
    finished.toList <+: outcome.1.finished.toList := by
  cases transition with
  | leaf => exact prefix_finished_deliver _ _
  | array => exact List.prefix_rfl
  | round => exact List.prefix_rfl
  | close => exact prefix_finished_deliver _ _
  | missing => exact prefix_finished_deliver _ _
  | stray => exact prefix_finished_deliver _ _
  | keyword => exact List.prefix_rfl
  | call => exact List.prefix_rfl
  | name => exact List.prefix_rfl
  | reject => exact prefix_finished_passOver _ _
  | pass => exact prefix_finished_passOver _ _

private theorem prefix_finished_readAll (state : State) (words : List Token) :
    state.finished.toList <+: (state.readAll words).1.finished.toList := by
  induction words generalizing state with
  | nil => exact List.prefix_rfl
  | cons word words induction =>
      have stepped :=
        (transition_step state.finished state.frames word state.mode).prefix_finished
      exact stepped.trans (induction _)

/-! ## The end of the input -/

private theorem finished_deliver_none (first : Token) :
    (deliver finished first none frames).1.finished = finished := by
  rcases frames with _ | ⟨frame, frames⟩
  · rfl
  · cases frame <;> rfl

private theorem finished_abandon (first : Token) :
    (abandon finished first frames).1.finished = finished := by
  induction frames generalizing first with
  | nil => rfl
  | cons frame frames induction =>
      cases frame with
      | sequence form opening items => rfl
      | declaration opening name => exact induction opening

private theorem finished_stepEnd {state : State} (position : Position)
    (busy : state.isIdle = false) :
    (state.stepEnd position).1.finished = state.finished := by
  rcases stepEnd_cases position busy with
    ⟨construct, first, frames, stepped⟩ | ⟨opening, stepped⟩
  · rw [stepped]
    exact finished_abandon first
  · rw [stepped]
    exact finished_deliver_none opening

theorem finished_close (state : State) (position : Position) :
    (state.close position).1 = state.finished := by
  induction state using close.induct position with
  | case1 state busy decrease outcome induction =>
      rw [close_of_busy position busy, induction, finished_stepEnd position busy]
  | case2 state busy =>
      rw [close_of_isIdle position (by simpa using busy)]

theorem takeWhile_close (state : State) (position : Position) :
    (state.close position).2.takeWhile (fun diagnostic => !diagnostic.meetsEnd) = [] := by
  by_cases idle : state.isIdle = true
  · rw [close_of_isIdle position idle, List.takeWhile_nil]
  · rw [Bool.not_eq_true] at idle
    rcases exists_reports_stepEnd position idle with ⟨diagnostic, later, reports, meets⟩
    rw [close_of_busy position idle, reports, List.cons_append]
    exact List.takeWhile_cons_of_neg (by simp [meets])

end State

namespace Reading

theorem program_ofWords (words : List Token) (position : Position) :
    (ofWords words position).program.expressions =
      (State.initial.readAll words).1.finished.toList := by
  rw [ofWords, State.finished_close]

theorem takeWhile_diagnostics_ofWords {words : List Token} (position : Position)
    (more : ∀ word ∈ words, word.kind ≠ .endOfInput) :
    (ofWords words position).diagnostics.takeWhile
      (fun diagnostic => !diagnostic.meetsEnd) = (State.initial.readAll words).2 := by
  have misses : ∀ diagnostic ∈ (State.initial.readAll words).2,
      (!diagnostic.meetsEnd) = true := by
    intro diagnostic member
    rw [State.meetsEnd_readAll more member, Bool.not_false]
  rw [ofWords, List.takeWhile_append_of_pos misses, State.takeWhile_close,
    List.append_nil]

/-- What the first lines give, up to where their end is met, they give in front of other
lines too. -/
theorem prefix_ofText_append_newline (first second : String)
    (even : first.toList.count '"' % 2 = 0) :
    (ofText first).program.expressions <+:
        (ofText (first ++ "\n" ++ second)).program.expressions ∧
      (ofText first).diagnostics.takeWhile (fun diagnostic => !diagnostic.meetsEnd) <+:
        (ofText (first ++ "\n" ++ second)).diagnostics := by
  have words := Cursor.words_append_newline first second even
  rw [ofText_eq_ofWords first, ofText_eq_ofWords (first ++ "\n" ++ second), words]
  constructor
  · rw [program_ofWords, program_ofWords, State.readAll_append]
    exact State.prefix_finished_readAll _ _
  · rw [takeWhile_diagnostics_ofWords _ fun _ => Cursor.kind_ne_endOfInput_of_mem_words,
      ofWords, State.readAll_append, List.append_assoc]
    exact List.prefix_append _ _

theorem prefix_ofText_append_newline_of_cut :
    ("(+ 1 2) ) [(fn f [x 3] (g".toList.count '"' % 2 = 0) ∧
      (ofText "(+ 1 2) ) [(fn f [x 3] (g").program.expressions <+:
        (ofText
          ("(+ 1 2) ) [(fn f [x 3] (g" ++ "\n" ++ "y) ] \x7d \"")).program.expressions ∧
      (ofText "(+ 1 2) ) [(fn f [x 3] (g").diagnostics.takeWhile (!·.meetsEnd) <+:
        (ofText ("(+ 1 2) ) [(fn f [x 3] (g" ++ "\n" ++ "y) ] \x7d \"")).diagnostics := by
  have even : "(+ 1 2) ) [(fn f [x 3] (g".toList.count '"' % 2 = 0 := by decide
  exact ⟨even, prefix_ofText_append_newline _ "y) ] \x7d \"" even⟩

end Reading

end LispFront
