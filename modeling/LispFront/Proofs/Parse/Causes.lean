import LispFront.Proofs.Parse.Ending
import LispFront.Proofs.Parse.Transition

/-! # Causes

No element is dropped without a cause, and the cause is the report right in front of the
loss (`Reading.caused_ofWords`). Where a loss is reported at once, the step has just
reported what is wrong. A form that is passed over is given up only later, but nothing is
reported meanwhile, so the invariant looks at the last report (`State.Explained`). -/

namespace LispFront

namespace Diagnostic

/-- Whether a construct gives no expression because of what is reported. -/
def spoils : Diagnostic → Bool
  | unexpectedEnd .. | invalidFunctionName .. | noExpression .. | expectedParameters .. =>
      true
  | elementDropped _ | expectedIdentifier .. => false

def EndsInCause (reports : List Diagnostic) : Prop :=
  ∃ cause, reports.getLast? = some cause ∧ cause.spoils = true

/-- Right in front of each dropped element stands the cause of its loss. -/
def Caused (reports : List Diagnostic) : Prop :=
  ∀ before first after, reports = before ++ elementDropped first :: after →
    EndsInCause before

variable {reports : List Diagnostic} {diagnostic : Diagnostic}

theorem endsInCause_concat (reports : List Diagnostic)
    (spoils : diagnostic.spoils = true) : EndsInCause (reports ++ [diagnostic]) :=
  ⟨diagnostic, List.getLast?_concat, spoils⟩

private theorem caused_nil : Caused [] := by
  intro before first after split
  cases List.append_eq_nil_iff.mp split.symm |>.2

theorem Caused.concat (caused : Caused reports)
    (explained : ∀ first, diagnostic = elementDropped first → EndsInCause reports) :
    Caused (reports ++ [diagnostic]) := by
  intro before first after split
  rcases List.eq_nil_or_concat after with rfl | ⟨rest, last, rfl⟩
  · rcases List.append_inj' split rfl with ⟨rfl, same⟩
    exact explained first (List.cons.inj same).1
  · rw [List.concat_eq_append, ← List.cons_append, ← List.append_assoc] at split
    exact caused before first rest (List.append_inj' split rfl).1

theorem Caused.concat_of_spoils (caused : Caused reports)
    (spoils : diagnostic.spoils = true) : Caused (reports ++ [diagnostic]) := by
  apply caused.concat
  rintro first rfl
  cases spoils

theorem Caused.append {more : List Diagnostic} (caused : Caused reports)
    (lossless : ∀ first, elementDropped first ∉ more) : Caused (reports ++ more) := by
  induction more generalizing reports with
  | nil => rwa [List.append_nil]
  | cons diagnostic more induction =>
      rw [List.append_cons]
      apply induction
      · apply caused.concat
        rintro first rfl
        exact (lossless first List.mem_cons_self).elim
      · exact fun first member => lossless first (List.mem_cons_of_mem _ member)

end Diagnostic

open Diagnostic

namespace State

/-- Each loss that has been reported has its cause, and so has that of a form that is
passed over, which has yet to be reported. -/
structure Explained (reports : List Diagnostic) (state : State) : Prop where
  caused : Caused reports
  skips : ∀ opening nested, state.mode = .skip opening nested → EndsInCause reports

variable {finished : Array Expression} {frames : List Frame} {mode : Mode} {token : Token}
  {reports : List Diagnostic}

theorem Explained.of_mode_ne_skip {state : State} (caused : Caused reports)
    (other : ∀ opening nested, state.mode ≠ .skip opening nested) :
    state.Explained reports :=
  ⟨caused, fun opening nested skips => (other opening nested skips).elim⟩

private theorem explained_deliver (caused : Caused reports) (first : Token)
    {result : Option Expression} (cause : result = none → EndsInCause reports) :
    (deliver finished first result frames).1.Explained
      (reports ++ (deliver finished first result frames).2) := by
  have lossless {state : State}
      (other : ∀ opening nested, state.mode ≠ .skip opening nested) :
      state.Explained (reports ++ []) :=
    .of_mode_ne_skip (caused.append (by nofun)) other
  have misfit (frames : List Frame) (opening : Token) (found : String)
      (position : Position) :
      Explained (reports ++ [.expectedParameters found position])
        ⟨finished, frames, .skip opening 0⟩ :=
    ⟨caused.concat_of_spoils rfl, fun _ _ _ => endsInCause_concat reports rfl⟩
  rcases frames with _ | ⟨frame, frames⟩
  · cases result <;> exact lossless (by nofun)
  cases frame with
  | sequence form opening items =>
      cases result with
      | none => exact .of_mode_ne_skip (caused.concat fun _ _ => cause rfl) (by nofun)
      | some expression => exact lossless (by nofun)
  | declaration opening name =>
      rcases result with _ | expression
      · exact misfit frames opening _ _
      cases expression with
      | array bracket elements =>
          refine .of_mode_ne_skip (caused.append fun lost member => ?_) (by nofun)
          rcases List.mem_filterMap.mp member with ⟨element, -, problem⟩
          cases eq_of_parameterProblem? problem
      | _ => exact misfit frames opening _ _

private theorem explained_passOver (caused : Caused reports) (cause : EndsInCause reports)
    (opening : Token) (nested : Nat) :
    (passOver finished frames opening nested token).1.Explained
      (reports ++ (passOver finished frames opening nested token).2) := by
  rcases passOver_cases finished frames token opening nested with
    ⟨nested', passed⟩ | ⟨-, given⟩
  · rw [passed, List.append_nil]
    exact ⟨caused, fun _ _ _ => cause⟩
  · rw [given]
    exact explained_deliver caused opening fun _ => cause

private theorem explained_report {diagnostic : Diagnostic}
    {outcome : State × List Diagnostic} (caused : Caused reports)
    (spoils : diagnostic.spoils = true)
    (later : ∀ {reports : List Diagnostic}, Caused reports → EndsInCause reports →
      outcome.1.Explained (reports ++ outcome.2)) :
    (report diagnostic outcome).1.Explained
      (reports ++ (report diagnostic outcome).2) := by
  rw [report, List.append_cons]
  exact later (caused.concat_of_spoils spoils) (endsInCause_concat reports spoils)

theorem Transition.explained {outcome : State × List Diagnostic}
    (transition : Transition finished token frames mode outcome)
    (explained : Explained reports ⟨finished, frames, mode⟩) :
    outcome.1.Explained (reports ++ outcome.2) := by
  have caused := explained.caused
  have silent {state : State}
      (other : ∀ opening nested, state.mode ≠ .skip opening nested) :
      state.Explained (reports ++ []) := by
    rw [List.append_nil]
    exact .of_mode_ne_skip caused other
  cases transition with
  | leaf => exact explained_deliver caused _ nofun
  | array => exact silent (by nofun)
  | round => exact silent (by nofun)
  | close => exact explained_deliver caused _ nofun
  | missing =>
      exact explained_report caused rfl fun caused cause =>
        explained_deliver caused _ fun _ => cause
  | stray =>
      exact explained_report caused rfl fun caused cause =>
        explained_deliver caused _ fun _ => cause
  | keyword => exact silent (by nofun)
  | call => exact silent (by nofun)
  | name => exact silent (by nofun)
  | reject =>
      exact explained_report caused rfl fun caused cause =>
        explained_passOver caused cause _ _
  | pass => exact explained_passOver caused (explained.skips _ _ rfl) _ _

private theorem explained_readAll {state : State} (explained : state.Explained reports)
    (words : List Token) :
    (state.readAll words).1.Explained (reports ++ (state.readAll words).2) := by
  induction words generalizing state reports with
  | nil => rwa [readAll, List.append_nil]
  | cons word words induction =>
      have stepped :=
        (transition_step state.finished state.frames word state.mode).explained explained
      rw [readAll_cons, ← List.append_assoc]
      exact induction stepped

/-! ## The end -/

private theorem explained_abandon (caused : Caused reports) (cause : EndsInCause reports)
    (first : Token) :
    (abandon finished first frames).1.Explained
      (reports ++ (abandon finished first frames).2) := by
  induction frames generalizing first with
  | nil => exact .of_mode_ne_skip (caused.append (by nofun)) (by nofun)
  | cons frame frames induction =>
      cases frame with
      | sequence form opening items =>
          exact .of_mode_ne_skip (caused.concat fun _ _ => cause) (by nofun)
      | declaration opening name => exact induction opening

private theorem explained_stepEnd {state : State} (position : Position)
    (caused : Caused reports) (busy : state.isIdle = false) :
    (state.stepEnd position).1.Explained (reports ++ (state.stepEnd position).2) := by
  rcases stepEnd_cases position busy with
    ⟨construct, first, frames, stepped⟩ | ⟨opening, stepped⟩
  · rw [stepped]
    exact explained_report caused rfl fun caused cause =>
      explained_abandon caused cause first
  · rw [stepped]
    exact explained_report caused rfl fun caused cause =>
      explained_deliver caused opening fun _ => cause

private theorem caused_close (reports : List Diagnostic) (state : State)
    (position : Position) (caused : Caused reports) :
    Caused (reports ++ (state.close position).2) := by
  induction state using close.induct position generalizing reports with
  | case1 state busy decrease outcome induction =>
      rw [close_of_busy position busy, ← List.append_assoc]
      exact induction _ (explained_stepEnd position caused busy).caused
  | case2 state busy =>
      rwa [close_of_isIdle position (by simpa using busy), List.append_nil]

end State

theorem Reading.caused_ofWords (words : List Token) (position : Position) :
    Caused (ofWords words position).diagnostics := by
  have start : State.initial.Explained [] := .of_mode_ne_skip caused_nil (by nofun)
  have read := State.explained_readAll start words
  exact State.caused_close _ _ position read.caused

end LispFront
