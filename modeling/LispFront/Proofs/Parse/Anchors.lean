import LispFront.Proofs.Parse.Cascade
import LispFront.Proofs.Parse.Causes

/-! # Anchors

Whatever is reported is about tokens of the text, and no token is blamed twice
(`Reading.anchored_ofText`). A step blames the token that is read and no other, so those
that are blamed come in their order. What else is reported is about an element that has
been given up or misplaced, whose first word has been read before: the invariant is that
all that is open, and each element in it, has begun with a word of the text
(`State.Begun`). -/

namespace LispFront

namespace Token

def IsWordOf (tokens : List Token) (token : Token) : Prop :=
  token ∈ tokens ∧ token.kind ≠ .endOfInput

def EndAt (tokens : List Token) (position : Position) : Prop :=
  ∃ ending, tokens.getLast? = some ending ∧ ending.kind = .endOfInput ∧
    ending.position = position

end Token

namespace Diagnostic

/-- What is reported is about tokens among `tokens`: about one that can be wrong in this
way, about one that began what is wrong, or about the end. -/
def Anchored (tokens : List Token) : Diagnostic → Prop
  | noExpression kind position =>
      kind.begins = false ∧
        ∃ token : Token, token.IsWordOf tokens ∧ token.kind = kind ∧
          token.position = position
  | invalidFunctionName kind position =>
      ¬(kind = .identifier ∨ kind.isOperator = true) ∧
        ∃ token ∈ tokens, token.kind = kind ∧ token.position = position
  | elementDropped first => first ∈ tokens
  | expectedIdentifier _ position | expectedParameters _ position =>
      ∃ token : Token, token.IsWordOf tokens ∧ token.position = position
  | unexpectedEnd _ position => Token.EndAt tokens position

/-- The place of the token that is blamed, where one is. -/
def blamed? : Diagnostic → Option Position
  | noExpression _ position | invalidFunctionName _ position => some position
  | _ => none

end Diagnostic

open Diagnostic

/-- An expression that begins with a word, as do the expressions directly below it. -/
def Expression.Begun (tokens : List Token) (expression : Expression) : Prop :=
  expression.token.IsWordOf tokens ∧ ∀ child ∈ expression.children,
    child.token.IsWordOf tokens

def Frame.Begun (tokens : List Token) : Frame → Prop
  | sequence _ opening items =>
      opening.IsWordOf tokens ∧ ∀ item ∈ items, item.token.IsWordOf tokens
  | declaration opening _ => opening.IsWordOf tokens

namespace State

structure Begun (tokens : List Token) (state : State) : Prop where
  mode : ∀ opening, state.mode.opening? = some opening → opening.IsWordOf tokens
  frames : ∀ frame ∈ state.frames, frame.Begun tokens

/-- What is open after a step began with words, and what the step reports is about
tokens. -/
structure Anchors (tokens : List Token) (outcome : State × List Diagnostic) : Prop where
  begun : outcome.1.Begun tokens
  reports : ∀ diagnostic ∈ outcome.2, diagnostic.Anchored tokens

variable {finished : Array Expression} {frames : List Frame} {mode : Mode}
  {token first opening : Token} {tokens : List Token}

theorem Begun.openings {state : State} (begun : state.Begun tokens) :
    ∀ opening ∈ state.openings, opening.IsWordOf tokens := by
  intro opening member
  rcases List.mem_append.mp member with member | member
  · exact begun.mode opening (Option.mem_toList.mp member)
  · rcases List.mem_map.mp member with ⟨frame, listed, rfl⟩
    have frameBegun := begun.frames frame listed
    cases frame with
    | sequence form opening items => exact frameBegun.1
    | declaration opening name => exact frameBegun

/-! ## Words -/

private theorem begun_of_leaf? {expression : Expression}
    (leaf : token.leaf? = some expression) (word : token.IsWordOf tokens) :
    expression.Begun tokens := by
  unfold Token.leaf? at leaf
  split at leaf
  case h_1 => cases leaf; exact ⟨word, List.forall_mem_nil _⟩
  case h_2 => cases leaf; exact ⟨word, List.forall_mem_nil _⟩
  case h_3 => cases leaf; exact ⟨word, List.forall_mem_nil _⟩
  case h_4 => cases leaf

private theorem begun_build {form : Form} {items : Array Expression}
    (begun : Frame.Begun tokens (.sequence form opening items)) :
    (form.build opening items.toList).Begun tokens := by
  have inside : ∀ item ∈ items.toList, item.token.IsWordOf tokens := fun item member =>
    begun.2 item (Array.mem_toList_iff.mp member)
  cases form with
  | array => exact ⟨begun.1, inside⟩
  | call function => exact ⟨begun.1, inside⟩
  | body name parameters => exact ⟨begun.1, inside⟩

private theorem begun_open (form : Form) (word : opening.IsWordOf tokens) :
    Frame.Begun tokens (.sequence form opening #[]) :=
  ⟨word, fun _ member => (Array.not_mem_empty _ member).elim⟩

private theorem anchors_report {diagnostic : Diagnostic}
    {outcome : State × List Diagnostic} (anchored : diagnostic.Anchored tokens)
    (later : Anchors tokens outcome) :
    Anchors tokens (report diagnostic outcome) :=
  ⟨later.begun, List.forall_mem_cons.mpr ⟨anchored, later.reports⟩⟩

private theorem anchors_expression {reports : List Diagnostic}
    (framesBegun : ∀ frame ∈ frames, frame.Begun tokens)
    (anchored : ∀ diagnostic ∈ reports, diagnostic.Anchored tokens) :
    Anchors tokens (⟨finished, frames, .expression⟩, reports) :=
  ⟨⟨nofun, framesBegun⟩, anchored⟩

theorem anchors_of_opening? {reports : List Diagnostic}
    (begins : mode.opening? = some opening) (word : opening.IsWordOf tokens)
    (framesBegun : ∀ frame ∈ frames, frame.Begun tokens)
    (anchored : ∀ diagnostic ∈ reports, diagnostic.Anchored tokens) :
    Anchors tokens (⟨finished, frames, mode⟩, reports) := by
  refine ⟨⟨fun bracket same => ?_, framesBegun⟩, anchored⟩
  cases begins.symm.trans same
  exact word

private theorem anchors_deliver {result : Option Expression}
    (word : first.IsWordOf tokens)
    (resultBegun : ∀ expression, result = some expression → expression.Begun tokens)
    (framesBegun : ∀ frame ∈ frames, frame.Begun tokens) :
    Anchors tokens (deliver finished first result frames) := by
  rcases frames with _ | ⟨frame, frames⟩
  · cases result <;> exact anchors_expression framesBegun (List.forall_mem_nil _)
  rcases List.forall_mem_cons.mp framesBegun with ⟨frameBegun, outerBegun⟩
  cases frame with
  | sequence form opening items =>
      cases result with
      | none =>
          exact anchors_expression framesBegun (List.forall_mem_singleton.mpr word.1)
      | some expression =>
          have pushed :
              Frame.Begun tokens (.sequence form opening (items.push expression)) := by
            refine ⟨frameBegun.1, fun item member => ?_⟩
            rcases Array.mem_push.mp member with earlier | rfl
            · exact frameBegun.2 item earlier
            · exact (resultBegun item rfl).1
          exact anchors_expression (List.forall_mem_cons.mpr ⟨pushed, outerBegun⟩)
            (List.forall_mem_nil _)
  | declaration opening name =>
      have misfit (found : String) : Anchors tokens
          (⟨finished, frames, .skip opening 0⟩,
            [.expectedParameters found first.position]) :=
        anchors_of_opening? rfl frameBegun outerBegun
          (List.forall_mem_singleton.mpr ⟨first, word, rfl⟩)
      rcases result with _ | expression
      · exact misfit _
      cases expression with
      | array bracket elements =>
          apply anchors_expression
            (List.forall_mem_cons.mpr ⟨begun_open _ frameBegun, outerBegun⟩)
          intro diagnostic member
          rcases List.mem_filterMap.mp member with ⟨element, listed, problem⟩
          rw [eq_of_parameterProblem? problem]
          exact ⟨element.token, (resultBegun _ rfl).2 element listed, rfl⟩
      | _ => exact misfit _

private theorem anchors_passOver (nested : Nat) (word : opening.IsWordOf tokens)
    (framesBegun : ∀ frame ∈ frames, frame.Begun tokens) :
    Anchors tokens (passOver finished frames opening nested token) := by
  rcases passOver_cases finished frames token opening nested with
    ⟨nested', passed⟩ | ⟨-, given⟩
  · rw [passed]
    exact anchors_of_opening? rfl word framesBegun (List.forall_mem_nil _)
  · rw [given]
    exact anchors_deliver word nofun framesBegun

theorem Transition.anchors {outcome : State × List Diagnostic}
    (transition : Transition finished token frames mode outcome)
    (word : token.IsWordOf tokens)
    (begun : Begun tokens ⟨finished, frames, mode⟩) : Anchors tokens outcome := by
  rcases begun with ⟨modeBegun, framesBegun⟩
  cases transition with
  | leaf reads =>
      refine anchors_deliver word (fun expression same => ?_) framesBegun
      cases same
      exact begun_of_leaf? reads word
  | array =>
      exact anchors_expression (List.forall_mem_cons.mpr ⟨begun_open _ word, framesBegun⟩)
        (List.forall_mem_nil _)
  | round => exact anchors_of_opening? rfl word framesBegun (List.forall_mem_nil _)
  | close =>
      -- The elements of the run may be misplaced as parameters.
      rcases List.forall_mem_cons.mp framesBegun with ⟨frameBegun, outerBegun⟩
      refine anchors_deliver frameBegun.1 (fun expression same => ?_) outerBegun
      cases same
      exact begun_build frameBegun
  | missing =>
      rcases List.forall_mem_cons.mp framesBegun with ⟨frameBegun, outerBegun⟩
      exact anchors_report ⟨token, word, rfl⟩
        (anchors_deliver frameBegun nofun outerBegun)
  | stray strays =>
      exact anchors_report ⟨strays, token, word, rfl, rfl⟩
        (anchors_deliver word nofun framesBegun)
  | keyword =>
      exact anchors_of_opening? rfl (modeBegun _ rfl) framesBegun (List.forall_mem_nil _)
  | call =>
      exact anchors_expression
        (List.forall_mem_cons.mpr ⟨begun_open _ (modeBegun _ rfl), framesBegun⟩)
        (List.forall_mem_nil _)
  | name =>
      exact anchors_expression (List.forall_mem_cons.mpr ⟨modeBegun _ rfl, framesBegun⟩)
        (List.forall_mem_nil _)
  | @reject _ _ opening asked rejected =>
      have bracket : opening.IsWordOf tokens := by
        rcases asked with rfl | rfl
        · exact modeBegun opening rfl
        · exact modeBegun opening rfl
      exact anchors_report ⟨rejected, token, word.1, rfl, rfl⟩
        (anchors_passOver 0 bracket framesBegun)
  | pass => exact anchors_passOver _ (modeBegun _ rfl) framesBegun

private theorem anchors_readAll {state : State} {words : List Token}
    (begun : state.Begun tokens) (read : ∀ word ∈ words, word.IsWordOf tokens) :
    Anchors tokens (state.readAll words) := by
  induction words generalizing state with
  | nil => exact ⟨begun, List.forall_mem_nil _⟩
  | cons word words induction =>
      rcases List.forall_mem_cons.mp read with ⟨first, rest⟩
      have stepped :=
        (transition_step state.finished state.frames word state.mode).anchors first begun
      have later := induction stepped.begun rest
      exact ⟨later.begun, List.forall_mem_append.mpr ⟨stepped.reports, later.reports⟩⟩

/-! ## The end -/

theorem anchored_of_mem_cascade {position : Position} {construct : String}
    {lost : List (Token × String)} {diagnostic : Diagnostic}
    (ends : Token.EndAt tokens position) (brackets : ∀ loss ∈ lost, loss.1 ∈ tokens)
    (member : diagnostic ∈ cascade position construct lost) :
    diagnostic.Anchored tokens := by
  rcases List.mem_cons.mp member with rfl | member
  · exact ends
  · rcases List.mem_flatMap.mp member with ⟨loss, listed, member⟩
    rcases List.mem_cons.mp member with rfl | member
    · exact brackets loss listed
    · rw [List.mem_singleton.mp member]
      exact ends

private theorem anchored_close {state : State} {position : Position}
    (begun : state.Begun tokens) (ends : Token.EndAt tokens position) :
    ∀ diagnostic ∈ (state.close position).2, diagnostic.Anchored tokens := by
  have plain (state : State) (begun : state.Begun tokens)
      (other : ∀ opening, state.mode ≠ .head opening) :
      ∀ diagnostic ∈ (state.close position).2, diagnostic.Anchored tokens := by
    intro diagnostic member
    rcases close_of_ne_head position other with
      none | ⟨construct, lost, reports, brackets⟩
    · rw [none] at member
      cases member
    · rw [reports] at member
      refine anchored_of_mem_cascade ends (fun loss listed => ?_) member
      exact (begun.openings _ (brackets.subset (List.mem_map_of_mem listed))).1
  rcases state with ⟨finished, frames, mode⟩
  cases mode with
  | head opening =>
      have given : Anchors tokens (deliver finished opening none frames) :=
        anchors_deliver (begun.mode opening rfl) nofun begun.frames
      have blamed : Anchored tokens (.invalidFunctionName .endOfInput position) := by
        rcases ends with ⟨ending, last, kind, place⟩
        exact ⟨by simp [TokenKind.isOperator], ending,
          List.mem_of_getLast? last, kind, place⟩
      rw [close_head]
      refine List.forall_mem_cons.mpr ⟨blamed, ?_⟩
      exact List.forall_mem_append.mpr
        ⟨given.reports, plain _ given.begun (mode_deliver_ne_head _ _ _ _)⟩
  | expression => exact plain _ begun nofun
  | name opening => exact plain _ begun nofun
  | skip opening nested => exact plain _ begun nofun

/-! ## Blame -/

private theorem filterMap_blamed?_deliver (first : Token) (result : Option Expression) :
    (deliver finished first result frames).2.filterMap blamed? = [] := by
  rw [List.filterMap_eq_nil_iff]
  intro diagnostic member
  rcases mem_deliver member with rfl | ⟨found, position, rfl⟩ | ⟨found, position, rfl⟩
  · rfl
  · rfl
  · rfl

private theorem filterMap_blamed?_passOver (opening : Token) (nested : Nat) :
    (passOver finished frames opening nested token).2.filterMap blamed? = [] := by
  rcases passOver_cases finished frames token opening nested with
    ⟨nested', passed⟩ | ⟨-, given⟩
  · rw [passed]
    rfl
  · rw [given, filterMap_blamed?_deliver]

theorem Transition.blamed {outcome : State × List Diagnostic}
    (transition : Transition finished token frames mode outcome) :
    (outcome.2.filterMap blamed?).Sublist [token.position] := by
  have none {reports : List Diagnostic} (silent : reports.filterMap blamed? = []) :
      (reports.filterMap blamed?).Sublist [token.position] := by
    rw [silent]
    exact List.nil_sublist _
  have one {diagnostic : Diagnostic} {reports : List Diagnostic}
      (blames : diagnostic.blamed? = some token.position)
      (silent : reports.filterMap blamed? = []) :
      ((diagnostic :: reports).filterMap blamed?).Sublist [token.position] := by
    rw [List.filterMap_cons_some blames, silent]
  cases transition with
  | leaf => exact none (filterMap_blamed?_deliver _ _)
  | array => exact none rfl
  | round => exact none rfl
  | close => exact none (filterMap_blamed?_deliver _ _)
  | missing => exact none (filterMap_blamed?_deliver _ _)
  | stray => exact one rfl (filterMap_blamed?_deliver _ _)
  | keyword => exact none rfl
  | call => exact none rfl
  | name => exact none rfl
  | reject => exact one rfl (filterMap_blamed?_passOver _ _)
  | pass => exact none (filterMap_blamed?_passOver _ _)

private theorem blamed_readAll (state : State) (words : List Token) :
    ((state.readAll words).2.filterMap blamed?).Sublist (words.map Token.position) := by
  induction words generalizing state with
  | nil => exact .slnil
  | cons word words induction =>
      have first := (transition_step state.finished state.frames word state.mode).blamed
      rw [readAll_cons, List.filterMap_append]
      exact first.append (induction (state.step word).1)

private theorem filterMap_blamed?_cascade (position : Position) (construct : String)
    (lost : List (Token × String)) :
    (cascade position construct lost).filterMap blamed? = [] := by
  induction lost with
  | nil => rfl
  | cons loss lost induction => exact induction

private theorem blamed_close (state : State) (position : Position) :
    ((state.close position).2.filterMap blamed?).Sublist [position] := by
  have plain (state : State) (other : ∀ opening, state.mode ≠ .head opening) :
      (state.close position).2.filterMap blamed? = [] := by
    rcases close_of_ne_head position other with none | ⟨construct, lost, reports, -⟩
    · rw [none]
      rfl
    · rw [reports, filterMap_blamed?_cascade]
  have silent (state : State) (other : ∀ opening, state.mode ≠ .head opening) :
      ((state.close position).2.filterMap blamed?).Sublist [position] := by
    rw [plain state other]
    exact List.nil_sublist _
  rcases state with ⟨finished, frames, mode⟩
  cases mode with
  | head opening =>
      have blames : (invalidFunctionName .endOfInput position).blamed? = some position :=
        rfl
      rw [close_head, List.filterMap_cons_some blames, List.filterMap_append,
        filterMap_blamed?_deliver, plain _ (mode_deliver_ne_head _ _ _ _)]
      rfl
  | expression => exact silent _ nofun
  | name opening => exact silent _ nofun
  | skip opening nested => exact silent _ nofun

end State

namespace Reading

open State

private theorem anchored_ofWords {tokens words : List Token} {position : Position}
    (read : ∀ word ∈ words, word.IsWordOf tokens) (ends : Token.EndAt tokens position) :
    ∀ diagnostic ∈ (ofWords words position).diagnostics, diagnostic.Anchored tokens := by
  have start : initial.Begun tokens := ⟨nofun, List.forall_mem_nil _⟩
  have anchors := anchors_readAll start read
  exact List.forall_mem_append.mpr ⟨anchors.reports, anchored_close anchors.begun ends⟩

private theorem blamed_ofWords (words : List Token) (position : Position) :
    ((ofWords words position).diagnostics.filterMap blamed?).Sublist
      (words.map Token.position ++ [position]) := by
  rw [ofWords, List.filterMap_append]
  exact (blamed_readAll initial words).append (blamed_close _ position)

/-- Each report about a text is about tokens of the text. Those that are blamed come in
their order, none of them twice, and an element is dropped right behind the report of the
cause. -/
structure Anchored (source : String) : Prop where
  anchored : ∀ diagnostic ∈ (ofText source).diagnostics,
    diagnostic.Anchored (Cursor.ofString source).tokens
  ordered : ((ofText source).diagnostics.filterMap blamed?).Pairwise (· < ·)
  caused : Caused (ofText source).diagnostics

theorem anchored_ofText (source : String) : Anchored source := by
  have tokens := (Cursor.ofString source).tokens_eq_words_append
  constructor
  case anchored =>
    have words : ∀ word ∈ (Cursor.ofString source).words,
        word.IsWordOf (Cursor.ofString source).tokens := by
      intro word member
      rw [tokens]
      exact ⟨List.mem_append_left _ member, Cursor.kind_ne_endOfInput_of_mem_words member⟩
    have ends :
        Token.EndAt (Cursor.ofString source).tokens
          (Cursor.ofString source).exhausted.position := by
      rw [tokens]
      exact ⟨_, List.getLast?_concat, rfl, rfl⟩
    rw [ofText_eq_ofWords]
    exact anchored_ofWords words ends
  case ordered =>
    have places := (Cursor.ofString source).pairwise_tokens
    rw [tokens, ← List.pairwise_map, List.map_append] at places
    rw [ofText_eq_ofWords]
    exact places.sublist (blamed_ofWords _ _)
  case caused =>
    rw [ofText_eq_ofWords]
    exact caused_ofWords _ _

/-- A stray bracket is blamed, and the end that stands where a head is missing. Each is
the cause of a loss. -/
example : (ofText "[) (").diagnostics =
    [.noExpression .rightRound ⟨1, 2⟩, .elementDropped ⟨.rightRound, ")", ⟨1, 2⟩⟩,
      .invalidFunctionName .endOfInput ⟨1, 5⟩, .elementDropped ⟨.leftRound, "(", ⟨1, 4⟩⟩,
      .unexpectedEnd "array" ⟨1, 5⟩] := by
  decide +kernel

end Reading

end LispFront
