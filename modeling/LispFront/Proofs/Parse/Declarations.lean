import LispFront.Proofs.Parse.Cascade

/-! # Declarations at the end

When the input ends in the expression that stands where the parameters of a declaration
should be, the declaration is given up with it. What is open in the expression is reported
as if there were no declaration around it, and the declaration adds nothing, with one
exception: a round form without a head is reported as no list of parameters, and the
declaration then meets the end once more (`Reading.diagnostics_of_declaration`). -/

namespace LispFront

namespace State

variable {finished : Array Expression} {inner outer : List Frame} {mode : Mode}
  {opening name : Token}

/-- What a declaration adds when the input has ended within its parameters. -/
def declarationReports (position : Position) : List Frame → Mode → List Diagnostic
  | [], .head bracket =>
      [.expectedParameters (describeResult none) bracket.position,
        .unexpectedEnd skippedConstruct position]
  | _, _ => []

theorem abandon_append_declaration (finished : Array Expression)
    (first opening name : Token) (inner outer : List Frame) :
    abandon finished first inner = (⟨finished, [], .expression⟩, []) ∧
        abandon finished first (inner ++ .declaration opening name :: outer) =
          abandon finished opening outer ∨
      ∃ form bracket items around lost,
        abandon finished first inner =
          (⟨finished, .sequence form bracket items :: around, .expression⟩,
            [.elementDropped lost]) ∧
        abandon finished first (inner ++ .declaration opening name :: outer) =
          (⟨finished,
            .sequence form bracket items :: around ++ .declaration opening name :: outer,
            .expression⟩, [.elementDropped lost]) := by
  induction inner generalizing first with
  | nil => exact .inl ⟨rfl, rfl⟩
  | cons frame inner induction =>
      cases frame with
      | sequence form bracket items =>
          exact .inr ⟨form, bracket, items, inner, first, rfl, rfl⟩
      | declaration bracket name => exact induction bracket

theorem close_append_declaration (state : State) (position : Position)
    (opening name : Token) (outer : List Frame) (busy : state.isIdle = false)
    (begun : ∀ bracket, state.mode ≠ .head bracket) :
    (close position
      ⟨state.finished, state.frames ++ .declaration opening name :: outer, state.mode⟩).2
        = (state.close position).2 ++
          ((abandon state.finished opening outer).2 ++
            ((abandon state.finished opening outer).1.close position).2) := by
  induction state using close.induct position with
  | case1 state busy decrease outcome induction =>
      rcases stepEnd_eq position busy begun with ⟨construct, first, frames, -, stepped⟩
      have alone := stepped []
      rw [List.append_nil, List.append_nil] at alone
      have open_ : isIdle ⟨state.finished,
          state.frames ++ .declaration opening name :: outer, state.mode⟩ = false := by
        cases frames : state.frames <;> rfl
      rw [close_of_report open_ (stepped _), close_of_report busy alone]
      simp only [outcome, alone, report] at induction
      rcases abandon_append_declaration state.finished first opening name
        frames outer with
        ⟨left, given⟩ | ⟨form, bracket, items, around, lost, left, given⟩
      · have idle : isIdle ⟨state.finished, [], .expression⟩ = true := rfl
        rw [left, given, close_of_isIdle position idle]
        rfl
      · rw [left] at induction ⊢
        rw [given, induction rfl (by simp)]
        rfl
  | case2 state idle => exact (idle busy).elim

theorem close_append_declaration_head (position : Position) (bracket : Token) :
    (close position
      ⟨finished, inner ++ .declaration opening name :: outer, .head bracket⟩).2 =
        (close position ⟨finished, inner, .head bracket⟩).2 ++
          (declarationReports position inner (.head bracket) ++
            ((abandon finished opening outer).2 ++
              ((abandon finished opening outer).1.close position).2)) := by
  rw [close_head, close_head]
  rcases inner with _ | ⟨frame, inner⟩
  · have skipped : stepEnd ⟨finished, outer, .skip opening 0⟩ position =
        report (.unexpectedEnd skippedConstruct position)
          (abandon finished opening outer) := rfl
    have later := close_of_report (isIdle_of_mode (by simp)) skipped
    have alone : (deliver finished bracket none []).1.isIdle = true := rfl
    rw [close_of_isIdle position alone]
    simp only [List.nil_append, deliver, later]
    rfl
  · cases frame with
    | sequence form around items =>
        have later :=
          close_append_declaration
            ⟨finished, .sequence form around items :: inner, .expression⟩
          position opening name outer rfl (by simp)
        simp only [List.cons_append] at later
        simp only [deliver, List.cons_append, later]
        rfl
    | declaration around named =>
        have later :=
          close_append_declaration ⟨finished, inner, .skip around 0⟩ position
            opening name outer
          (isIdle_of_mode (by simp)) (by simp)
        simp only [deliver, List.cons_append, later]
        rfl

private theorem close_declaration (position : Position)
    (begun : inner = [] → mode ≠ .expression) :
    (close position ⟨finished, inner ++ .declaration opening name :: outer, mode⟩).2 =
      (close position ⟨finished, inner, mode⟩).2 ++
        (declarationReports position inner mode ++ ((abandon finished opening outer).2 ++
          ((abandon finished opening outer).1.close position).2)) := by
  have busy : isIdle ⟨finished, inner, mode⟩ = false := by
    rcases inner with _ | ⟨frame, inner⟩
    · exact isIdle_of_mode (begun rfl)
    · rfl
  by_cases head : ∃ bracket, mode = .head bracket
  · rcases head with ⟨bracket, rfl⟩
    exact close_append_declaration_head position bracket
  · have silent : declarationReports position inner mode = [] := by
      cases mode with
      | head bracket => exact (head ⟨bracket, rfl⟩).elim
      | _ => cases inner <;> rfl
    rw [silent, List.nil_append]
    exact close_append_declaration _ position opening name outer busy fun bracket same =>
      head ⟨bracket, same⟩

end State

namespace Reading

open State

/-- When the input ends within what stands for the parameters of a declaration, this is
reported first, as it is without the declaration, and then the loss of the declaration
where something is open around it. In between, the declaration adds something of its own
if and only if the end stands right behind the bracket that opens what stands for the
parameters. -/
theorem diagnostics_of_declaration {source : String} {finished : Array Expression}
    {inner outer : List Frame} {opening name : Token} {mode : Mode}
    (read : (initial.readAll (Cursor.ofString source).words).1 =
      ⟨finished, inner ++ .declaration opening name :: outer, mode⟩)
    (begun : inner = [] → mode ≠ .expression) :
    let position := (Cursor.ofString source).exhausted.position
    (ofText source).diagnostics =
        (initial.readAll (Cursor.ofString source).words).2 ++
          ((close position ⟨finished, inner, mode⟩).2 ++
            (declarationReports position inner mode ++
              ((abandon finished opening outer).2 ++
                ((abandon finished opening outer).1.close position).2))) ∧
      (declarationReports position inner mode ≠ [] ↔
        inner = [] ∧ ∃ bracket, mode = .head bracket) := by
  constructor
  · rw [ofText_eq_ofWords, ofWords, read, close_declaration _ begun]
  · constructor
    · intro adds
      rcases inner with _ | ⟨frame, inner⟩
      · cases mode with
        | head bracket => exact ⟨rfl, bracket, rfl⟩
        | _ => exact (adds rfl).elim
      · exact (adds rfl).elim
    · rintro ⟨rfl, bracket, rfl⟩
      exact List.cons_ne_nil _ _

theorem diagnostics_of_declaration_of_nested :
    (initial.readAll (Cursor.ofString "[(fn f [x").words).1 =
        ⟨#[], [.sequence .array ⟨.leftSquare, "[", ⟨1, 8⟩⟩
            #[.identifier (.ofToken ⟨.identifier, "x", ⟨1, 9⟩⟩)]] ++
          .declaration ⟨.leftRound, "(", ⟨1, 2⟩⟩ ⟨.identifier, "f", ⟨1, 6⟩⟩ ::
            [.sequence .array ⟨.leftSquare, "[", ⟨1, 1⟩⟩ #[]], .expression⟩ ∧
      (ofText "[(fn f [x").diagnostics =
        [.unexpectedEnd "array" ⟨1, 10⟩, .elementDropped ⟨.leftRound, "(", ⟨1, 2⟩⟩,
          .unexpectedEnd "array" ⟨1, 10⟩] := by
  have words : (Cursor.ofString "[(fn f [x").words =
      [⟨.leftSquare, "[", ⟨1, 1⟩⟩, ⟨.leftRound, "(", ⟨1, 2⟩⟩, ⟨.identifier, "fn", ⟨1, 3⟩⟩,
        ⟨.identifier, "f", ⟨1, 6⟩⟩, ⟨.leftSquare, "[", ⟨1, 8⟩⟩,
        ⟨.identifier, "x", ⟨1, 9⟩⟩] := by
    decide +kernel
  have read : (initial.readAll (Cursor.ofString "[(fn f [x").words).1 =
      ⟨#[], [.sequence .array ⟨.leftSquare, "[", ⟨1, 8⟩⟩
          #[.identifier (.ofToken ⟨.identifier, "x", ⟨1, 9⟩⟩)]] ++
        .declaration ⟨.leftRound, "(", ⟨1, 2⟩⟩ ⟨.identifier, "f", ⟨1, 6⟩⟩ ::
          [.sequence .array ⟨.leftSquare, "[", ⟨1, 1⟩⟩ #[]], .expression⟩ := by
    rw [words]
    rfl
  exact ⟨read, (diagnostics_of_declaration read nofun).1.trans (by decide +kernel)⟩

/-- Behind a bracket without a head, the declaration reports that its parameters are
missing, and meets the end once more. -/
theorem diagnostics_of_headless_parameters :
    (initial.readAll (Cursor.ofString "(fn f (").words).1 =
        ⟨#[], [.declaration ⟨.leftRound, "(", ⟨1, 1⟩⟩ ⟨.identifier, "f", ⟨1, 5⟩⟩],
          .head ⟨.leftRound, "(", ⟨1, 7⟩⟩⟩ ∧
      (ofText "(fn f (").diagnostics =
        [.invalidFunctionName .endOfInput ⟨1, 8⟩, .expectedParameters "nothing" ⟨1, 7⟩,
          .unexpectedEnd "round-bracket form" ⟨1, 8⟩] := by
  have words : (Cursor.ofString "(fn f (").words =
      [⟨.leftRound, "(", ⟨1, 1⟩⟩, ⟨.identifier, "fn", ⟨1, 2⟩⟩, ⟨.identifier, "f", ⟨1, 5⟩⟩,
        ⟨.leftRound, "(", ⟨1, 7⟩⟩] := by
    decide +kernel
  constructor
  · rw [words]
    rfl
  · decide +kernel

end Reading

end LispFront
