import LispFront.Proofs.Parse.Reading

/-! # Passages

While an expression is read, what was finished and what was open before it stay as they
are, and something besides them is open. A passage reads words of which each is met in
this way; its last word may lead out. -/

namespace LispFront

def reportAll (diagnostics : List Diagnostic) (outcome : State × List Diagnostic) :
    State × List Diagnostic :=
  (outcome.1, diagnostics ++ outcome.2)

theorem reportAll_append (first second : List Diagnostic)
    (outcome : State × List Diagnostic) :
    reportAll (first ++ second) outcome = reportAll first (reportAll second outcome) := by
  simp [reportAll]

namespace State

/-- The state is within an expression that was begun when `finished` and `frames` were all
there was. -/
structure Inside (finished : Array Expression) (frames : List Frame) (state : State) :
    Prop where
  kept : state.finished = finished
  above : ∃ inner, state.frames = inner ++ frames ∧
    (inner = [] → state.mode ≠ .expression)

def StaysInside (finished : Array Expression) (frames : List Frame) :
    State → List Token → Prop
  | _, [] => True
  | state, word :: words =>
      state.Inside finished frames ∧ StaysInside finished frames (state.step word).1 words

structure Passage (finished : Array Expression) (frames : List Frame) (state : State)
    (words : List Token) (outcome : State × List Diagnostic) : Prop where
  read : state.readAll words = outcome
  inside : StaysInside finished frames state words

variable {finished : Array Expression} {frames : List Frame} {frame : Frame}
  {state middle : State} {outcome : State × List Diagnostic} {reports : List Diagnostic}

/-! ## Inside -/

theorem inside_of_mode {mode : Mode} (begun : mode ≠ .expression) :
    Inside finished frames ⟨finished, frames, mode⟩ :=
  ⟨rfl, [], rfl, fun _ => begun⟩

theorem inside_of_frame (frame : Frame) (mode : Mode) :
    Inside finished frames ⟨finished, frame :: frames, mode⟩ :=
  ⟨rfl, [frame], rfl, fun empty => by cases empty⟩

theorem Inside.outward (inside : state.Inside finished (frame :: frames)) :
    state.Inside finished frames := by
  rcases inside with ⟨kept, inner, above, _⟩
  refine ⟨kept, inner ++ [frame], by simp [above], ?_⟩
  intro empty
  simp at empty

theorem StaysInside.outward {words : List Token}
    (stays : StaysInside finished (frame :: frames) state words) :
    StaysInside finished frames state words := by
  induction words generalizing state with
  | nil => trivial
  | cons word words induction => exact ⟨stays.1.outward, induction stays.2⟩

private theorem staysInside_append {first second : List Token}
    (stays : StaysInside finished frames state first)
    (later : StaysInside finished frames (state.readAll first).1 second) :
    StaysInside finished frames state (first ++ second) := by
  induction first generalizing state with
  | nil => exact later
  | cons word words induction => exact ⟨stays.1, induction stays.2 later⟩

/-! ## Passages -/

namespace Passage

theorem nil (state : State) : Passage finished frames state [] (state, []) :=
  ⟨rfl, trivial⟩

theorem last {word : Token} (inside : state.Inside finished frames)
    (stepped : state.step word = outcome) :
    Passage finished frames state [word] outcome :=
  ⟨(readAll_singleton state word).trans stepped, inside, trivial⟩

theorem append {first second : List Token}
    (passage : Passage finished frames state first (middle, reports))
    (later : Passage finished frames middle second outcome) :
    Passage finished frames state (first ++ second) (reportAll reports outcome) := by
  constructor
  · rw [readAll_append, passage.read, later.read]
    rfl
  · apply staysInside_append passage.inside
    rw [passage.read]
    exact later.inside

theorem append_of_silent {first second : List Token}
    (passage : Passage finished frames state first (middle, []))
    (later : Passage finished frames middle second outcome) :
    Passage finished frames state (first ++ second) outcome :=
  passage.append later

theorem cons_of_silent {word : Token} {words : List Token}
    (inside : state.Inside finished frames) (stepped : state.step word = (middle, []))
    (later : Passage finished frames middle words outcome) :
    Passage finished frames state (word :: words) outcome :=
  (last inside stepped).append_of_silent later

end Passage

/-! ## Expressions -/

theorem not_inside_deliver (finished : Array Expression) (first : Token)
    (result : Option Expression) (frames : List Frame) :
    ¬(deliver finished first result frames).1.Inside finished frames := by
  rintro ⟨kept, inner, above, begun⟩
  rcases frames with _ | ⟨frame, frames⟩
  · rw [List.append_nil] at above
    cases result <;> exact begun above.symm rfl
  have unchanged {frame' : Frame} (above : frame' :: frames = inner ++ frame :: frames) :
      inner = [] ∧ frame' = frame := by
    have none : inner = [] := by
      have length := congrArg List.length above
      rw [List.length_append, List.length_cons, List.length_cons] at length
      exact List.eq_nil_of_length_eq_zero (by omega)
    rw [none] at above
    exact ⟨none, (List.cons.inj above).1⟩
  cases frame with
  | sequence form opening items =>
      cases result with
      | none => exact begun (unchanged above).1 rfl
      | some expression => exact begun (unchanged above).1 rfl
  | declaration opening name =>
      have shorter : frames ≠ inner ++ .declaration opening name :: frames := by
        intro equal
        have length := congrArg List.length equal
        rw [List.length_append, List.length_cons] at length
        omega
      rcases result with _ | expression
      · exact shorter above
      cases expression with
      | array bracket elements => cases (unchanged above).2
      | _ => exact shorter above

/-- The expression that begins with `first` ends with the last of the words after it and
not before, and leaves behind its result and its reports. -/
structure Spans (finished : Array Expression) (frames : List Frame) (first : Token)
    (later : List Token) (result : Option Expression) (reports : List Diagnostic) :
    Prop where
  read : readAll ⟨finished, frames, .expression⟩ (first :: later) =
    reportAll reports (deliver finished first result frames)
  inside :
    StaysInside finished frames (step ⟨finished, frames, .expression⟩ first).1 later
  ended :
    ¬(readAll ⟨finished, frames, .expression⟩ (first :: later)).1.Inside finished frames

variable {first : Token} {later : List Token} {result : Option Expression}

theorem spans_of_read
    (read : readAll ⟨finished, frames, .expression⟩ (first :: later) =
      reportAll reports (deliver finished first result frames))
    (inside :
      StaysInside finished frames (step ⟨finished, frames, .expression⟩ first).1 later) :
    Spans finished frames first later result reports := by
  refine ⟨read, inside, ?_⟩
  rw [read]
  exact not_inside_deliver finished first result frames

theorem spans_of_passage
    (stepped : step ⟨finished, frames, .expression⟩ first = (middle, []))
    (passage : Passage finished frames middle later
      (reportAll reports (deliver finished first result frames))) :
    Spans finished frames first later result reports := by
  apply spans_of_read
  · rw [readAll_cons, stepped, passage.read]
    rfl
  · rw [stepped]
    exact passage.inside

theorem Spans.passage
    (spans : Spans finished (frame :: frames) first later result reports) :
    Passage finished frames ⟨finished, frame :: frames, .expression⟩ (first :: later)
      (reportAll reports (deliver finished first result (frame :: frames))) :=
  ⟨spans.read, inside_of_frame frame .expression, spans.inside.outward⟩

end State

end LispFront
