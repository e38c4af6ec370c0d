import LispFront.Proofs.Parse.Ending
import LispFront.Proofs.Parse.Transition
import LispFront.Proofs.Token.Tokenization

/-! # The log

What is logged while a text is read tells all that happened, once and in order: the
tokens, beside each of them what it brought to light, then what the end brought to light,
and last how much came of it (`Reading.faithful_eventsOfText`). No token is looked at
before it is logged, so a diagnostic about a token stands right behind it. -/

namespace LispFront

/-- The token that a diagnostic is about, where it is about one that was just read: its
kind and place. The end of the input is no token of the text. -/
def Diagnostic.named? : Diagnostic → Option (TokenKind × Position)
  | noExpression kind position => some (kind, position)
  | invalidFunctionName .endOfInput _ => none
  | invalidFunctionName kind position => some (kind, position)
  | _ => none

theorem Diagnostic.named_of_invalidFunctionName {kind : TokenKind} {position : Position}
    {place : TokenKind × Position}
    (names : (invalidFunctionName kind position).named? = some place) :
    (kind, position) = place := by
  cases kind with
  | endOfInput => cases names
  | _ => exact Option.some.inj names

namespace Event

def text? (event : Event) : Option String :=
  event.diagnostic?.map Diagnostic.message

/-- Of all the tokens logged in `before`, `word` is the last. -/
def Follows (word : Token) (before : List Event) : Prop :=
  ∃ earlier between, before = earlier ++ scanned word :: between ∧
    ∀ event ∈ between, event.level ≠ .trace

/-- A token that a diagnostic names is the last that was logged before it. -/
def Attentive (events : List Event) : Prop :=
  ∀ before diagnostic after place, events = before ++ reported diagnostic :: after →
    diagnostic.named? = some place → ∃ word, Follows word before ∧
      (word.kind, word.position) = place

def Final (events : List Event) : Prop :=
  ∀ before construct position after,
    events = before ++ reported (.unexpectedEnd construct position) :: after →
    ∀ event ∈ after, event.level ≠ .trace

/-- A log that agrees with the tokens of a text and with what the text is read as. -/
structure Faithful (tokens : List Token) (reading : Reading) (events : List Event) :
    Prop where
  scans : events.filter (·.level = .trace) =
    (tokens.filter (·.kind ≠ .endOfInput)).map scanned
  reports : events.filterMap diagnostic? = reading.diagnostics
  texts : events.filterMap text? = reading.diagnostics.map Diagnostic.message
  completes : ∃ front,
    events =
      front ++ [parsed reading.program.expressions.length reading.diagnostics.length] ∧
        ∀ expressions diagnostics, parsed expressions diagnostics ∉ front
  attentive : Attentive events
  final : Final events

/-! ## Logs part by part -/

theorem cases_of_append_eq {first second before after : List Event} {event : Event}
    (split : first ++ second = before ++ event :: after) :
    (∃ later, first = before ++ event :: later ∧ after = later ++ second) ∨
      ∃ later, before = first ++ later ∧ second = later ++ event :: after := by
  rcases List.append_eq_append_iff.mp split with
    ⟨later, inFront, inSecond⟩ | ⟨later, inFirst, behind⟩
  · exact .inr ⟨later, inFront, inSecond⟩
  · rcases List.cons_eq_append_iff.mp behind with ⟨rfl, inSecond⟩ | ⟨rest, rfl, inSecond⟩
    · exact .inr ⟨[], by simpa using inFirst.symm, inSecond⟩
    · exact .inl ⟨rest, inFirst, inSecond⟩

theorem Follows.append {word : Token} {before : List Event}
    (follows : Follows word before) (first : List Event) :
    Follows word (first ++ before) := by
  rcases follows with ⟨earlier, between, rfl, quiet⟩
  exact ⟨first ++ earlier, between, (List.append_assoc ..).symm, quiet⟩

theorem Attentive.append {first second : List Event} (attends : Attentive first)
    (attendsLater : Attentive second) : Attentive (first ++ second) := by
  intro before diagnostic after place split names
  rcases cases_of_append_eq split with ⟨later, inFirst, _⟩ | ⟨later, rfl, inSecond⟩
  · exact attends before diagnostic later place inFirst names
  · rcases attendsLater later diagnostic after place inSecond names with
      ⟨word, follows, same⟩
    exact ⟨word, follows.append first, same⟩

theorem attentive_of_unnamed {events : List Event}
    (unnamed : ∀ diagnostic, reported diagnostic ∈ events → diagnostic.named? = none) :
    Attentive events := by
  intro before diagnostic after place split names
  have listed : reported diagnostic ∈ events := by
    rw [split]
    exact List.mem_append_right _ List.mem_cons_self
  rw [unnamed diagnostic listed] at names
  cases names

private theorem attentive_scanned {word : Token} {diagnostics : List Diagnostic}
    (named : ∀ diagnostic ∈ diagnostics, ∀ place, diagnostic.named? = some place →
      (word.kind, word.position) = place) :
    Attentive (scanned word :: diagnostics.map reported) := by
  intro before diagnostic after place split names
  rcases List.cons_eq_append_iff.mp split with ⟨_, same⟩ | ⟨between, rfl, reports⟩
  · cases (List.cons.inj same).1
  rcases List.map_eq_append_iff.mp reports with ⟨front, back, rfl, rfl, backReported⟩
  rcases List.map_eq_cons_iff.mp backReported with ⟨found, rest, rfl, same, _⟩
  cases same
  refine ⟨word, ⟨[], front.map reported, rfl, ?_⟩, named diagnostic (by simp) place names⟩
  intro event member
  rcases List.mem_map.mp member with ⟨_, _, rfl⟩
  nofun

theorem final_append {first second : List Event}
    (unended : ∀ construct position, reported (.unexpectedEnd construct position) ∉ first)
    (quiet : ∀ event ∈ second, event.level ≠ .trace) : Final (first ++ second) := by
  intro before construct position after split event member
  rcases cases_of_append_eq split with ⟨later, rfl, _⟩ | ⟨later, _, rfl⟩
  · exact (unended construct position (List.mem_append_right _ List.mem_cons_self)).elim
  · exact quiet event (List.mem_append_right _ (List.mem_cons_of_mem _ member))

/-! What the end brings to light is logged last, and then how much came of the text. -/

variable {closing : List Diagnostic} {expressions diagnostics : Nat}

private theorem attentive_closing
    (unnamed : ∀ diagnostic ∈ closing, diagnostic.named? = none) :
    Attentive (closing.map reported ++ [parsed expressions diagnostics]) := by
  apply attentive_of_unnamed
  intro diagnostic member
  rcases List.mem_append.mp member with member | member
  · rcases List.mem_map.mp member with ⟨_, closes, same⟩
    cases same
    exact unnamed diagnostic closes
  · cases List.mem_singleton.mp member

private theorem level_of_mem_closing {event : Event}
    (member : event ∈ closing.map reported ++ [parsed expressions diagnostics]) :
    event.level ≠ .trace := by
  rcases List.mem_append.mp member with member | member
  · rcases List.mem_map.mp member with ⟨_, _, rfl⟩
    nofun
  · rw [List.mem_singleton.mp member]
    nofun

end Event

namespace State

variable {finished : Array Expression} {frames : List Frame} {mode : Mode}
  {diagnostic : Diagnostic}

/-! ## What diagnostics name -/

private theorem named?_deliver {first : Token} {result : Option Expression}
    (member : diagnostic ∈ (deliver finished first result frames).2) :
    diagnostic.named? = none := by
  rcases mem_deliver member with rfl | ⟨found, position, rfl⟩ | ⟨found, position, rfl⟩
  · rfl
  · rfl
  · rfl

private theorem named?_passOver {opening token : Token} {nested : Nat}
    (member : diagnostic ∈ (passOver finished frames opening nested token).2) :
    diagnostic.named? = none := by
  rcases passOver_cases finished frames token opening nested with ⟨_, passes⟩ | ⟨_, ends⟩
  · rw [passes] at member
    cases member
  · rw [ends] at member
    exact named?_deliver member

theorem Transition.named {word : Token} {outcome : State × List Diagnostic}
    (moves : Transition finished word frames mode outcome)
    (member : diagnostic ∈ outcome.2)
    {place : TokenKind × Position} (names : diagnostic.named? = some place) :
    (word.kind, word.position) = place := by
  -- Only two kinds of report name a token. Both stand in front of what follows.
  have absurdNamed (unnamed : diagnostic.named? = none) :
      (word.kind, word.position) = place := by
    rw [unnamed] at names
    cases names
  cases moves with
  | leaf reads => exact absurdNamed (named?_deliver member)
  | array opens => cases member
  | round opens => cases member
  | close closes => exact absurdNamed (named?_deliver member)
  | missing closes =>
      rcases List.mem_cons.mp member with rfl | member
      · exact absurdNamed rfl
      · exact absurdNamed (named?_deliver member)
  | stray strays =>
      rcases List.mem_cons.mp member with rfl | member
      · exact Option.some.inj names
      · exact absurdNamed (named?_deliver member)
  | keyword keyword => cases member
  | call other called => cases member
  | name named => cases member
  | reject asked rejected =>
      rcases List.mem_cons.mp member with rfl | member
      · exact Diagnostic.named_of_invalidFunctionName names
      · exact absurdNamed (named?_passOver member)
  | pass => exact absurdNamed (named?_passOver member)

private theorem named?_abandon {first : Token}
    (member : diagnostic ∈ (abandon finished first frames).2) :
    diagnostic.named? = none := by
  induction frames generalizing first with
  | nil => cases member
  | cons frame frames induction =>
      cases frame with
      | sequence form opening items =>
          rw [List.mem_singleton.mp member]
          rfl
      | declaration opening name => exact induction member

private theorem named?_stepEnd {state : State} (position : Position)
    (busy : state.isIdle = false) :
    ∀ diagnostic ∈ (state.stepEnd position).2, diagnostic.named? = none := by
  rcases stepEnd_cases position busy with
    ⟨construct, first, frames, stepped⟩ | ⟨opening, stepped⟩
  · rw [stepped]
    exact List.forall_mem_cons.mpr ⟨rfl, fun _ => named?_abandon⟩
  · rw [stepped]
    exact List.forall_mem_cons.mpr ⟨rfl, fun _ => named?_deliver⟩

private theorem named?_close {state : State} {position : Position}
    (member : diagnostic ∈ (state.close position).2) : diagnostic.named? = none := by
  induction state using State.close.induct position with
  | case1 state busy decrease outcome induction =>
      rw [close_of_busy position busy] at member
      rcases List.mem_append.mp member with member | member
      · exact named?_stepEnd position busy diagnostic member
      · exact induction member
  | case2 state busy =>
      rw [close_of_isIdle position (by simpa using busy)] at member
      cases member

/-! ## The log of a run -/

private theorem filter_trace_narrate (state : State) (words : List Token) :
    (state.narrate words).filter (·.level = .trace) = words.map .scanned := by
  induction words generalizing state with
  | nil => rfl
  | cons word words induction =>
      have quiet :
          ((state.step word).2.map Event.reported).filter (·.level = .trace) = [] := by
        rw [List.filter_eq_nil_iff]
        simp [Event.level]
      rw [narrate, List.filter_append, induction,
        List.filter_cons_of_pos (by simp [Event.level]), quiet]
      rfl

private theorem attentive_narrate (state : State) (words : List Token) :
    Event.Attentive (state.narrate words) := by
  induction words generalizing state with
  | nil => exact Event.attentive_of_unnamed fun _ member => by cases member
  | cons word words induction =>
      have named : ∀ diagnostic ∈ (state.step word).2, ∀ place,
          diagnostic.named? = some place → (word.kind, word.position) = place :=
            fun _ member _ names =>
        (transition_step state.finished state.frames word state.mode).named member names
      exact (Event.attentive_scanned named).append (induction (state.step word).1)

theorem cases_of_mem_narrate {state : State} {words : List Token} {event : Event}
    (member : event ∈ state.narrate words) :
    (∃ word, event = .scanned word) ∨
      ∃ diagnostic ∈ (state.readAll words).2, event = .reported diagnostic := by
  induction words generalizing state with
  | nil => cases member
  | cons word words induction =>
      rcases List.mem_append.mp member with member | member
      · rcases List.mem_cons.mp member with rfl | member
        · exact .inl ⟨word, rfl⟩
        · rcases List.mem_map.mp member with ⟨diagnostic, reports, rfl⟩
          exact .inr ⟨diagnostic, List.mem_append_left _ reports, rfl⟩
      · rcases induction member with scans | ⟨diagnostic, reports, same⟩
        · exact .inl scans
        · exact .inr ⟨diagnostic, List.mem_append_right _ reports, same⟩

end State

namespace Reading

theorem exists_eventsOfText_eq (source : String) :
    ∃ closing : List Diagnostic, (∀ diagnostic ∈ closing, diagnostic.named? = none) ∧
      eventsOfText source =
        State.initial.narrate (Cursor.ofString source).words ++ (closing.map .reported ++
          [.parsed (ofText source).program.expressions.length
            (ofText source).diagnostics.length]) := by
  let read := (State.initial.readAll (Cursor.ofString source).words).1
  refine ⟨(read.close (Cursor.ofString source).exhausted.position).2,
    fun _ => State.named?_close, ?_⟩
  have logged := Parser.logged_run (Cursor.ofString source) #[] .initial
  have last (expressions diagnostics : Nat) :
      [Event.parsed expressions diagnostics].filter Event.isLogged =
        [.parsed expressions diagnostics] :=
    rfl
  have silent (expressions diagnostics : Nat) :
      [Event.parsed expressions diagnostics].filterMap Event.diagnostic? = [] := rfl
  simp only [eventsOfText, ofText, Parser.ofCursor, Parser.parse, Parser.diagnostics,
    Array.toList_push, List.filter_append, List.filterMap_append, logged, last, silent,
    List.append_nil, List.filter_nil,
    List.nil_append, List.append_assoc]
  rfl

/-- The log of every text is faithful: in order, the tokens are those of the text without
its end, and the reports are the diagnostics; the numbers of expressions and diagnostics
come last and nowhere else. A diagnostic about a token stands behind it with no token in
between, and one that the input has ended stands behind all tokens. -/
theorem faithful_eventsOfText (source : String) :
    Event.Faithful (Cursor.ofString source).tokens (ofText source)
      (eventsOfText source) := by
  have more : ∀ word ∈ (Cursor.ofString source).words, word.kind ≠ .endOfInput := fun _ =>
    Cursor.kind_ne_endOfInput_of_mem_words
  have reported : (eventsOfText source).filterMap Event.diagnostic? =
      (ofText source).diagnostics :=
    Event.filterMap_diagnostic?_filter _
  rcases exists_eventsOfText_eq source with ⟨closing, unnamed, log⟩
  constructor
  case scans =>
    rw [log, List.filter_append, State.filter_trace_narrate, Cursor.filter_tokens,
      List.filter_eq_nil_iff.mpr, List.append_nil]
    intro event member
    simpa using Event.level_of_mem_closing member
  case reports => exact reported
  case texts =>
    rw [← reported, List.map_filterMap]
    rfl
  case completes =>
    refine ⟨_, log.trans (List.append_assoc ..).symm, ?_⟩
    intro expressions diagnostics member
    rcases List.mem_append.mp member with member | member
    · rcases State.cases_of_mem_narrate member with ⟨word, same⟩ | ⟨_, _, same⟩
      · cases same
      · cases same
    · rcases List.mem_map.mp member with ⟨_, _, same⟩
      cases same
  case attentive =>
    rw [log]
    exact (State.attentive_narrate .initial _).append (Event.attentive_closing unnamed)
  case final =>
    rw [log]
    refine Event.final_append ?_ fun _ => Event.level_of_mem_closing
    intro construct position member
    rcases State.cases_of_mem_narrate member with ⟨word, same⟩ | ⟨_, reports, same⟩
    · cases same
    · cases same
      cases State.meetsEnd_readAll more reports

/-- The head that is no name is reported behind itself, and the end behind all tokens. -/
example : eventsOfText "(1 [" =
    [.scanned ⟨.leftRound, "(", ⟨1, 1⟩⟩, .scanned ⟨.number, "1", ⟨1, 2⟩⟩,
      .reported (.invalidFunctionName .number ⟨1, 2⟩),
        .scanned ⟨.leftSquare, "[", ⟨1, 4⟩⟩,
      .reported (.unexpectedEnd "round-bracket form" ⟨1, 5⟩), .parsed 0 2] := by
  decide +kernel

end Reading

end LispFront
