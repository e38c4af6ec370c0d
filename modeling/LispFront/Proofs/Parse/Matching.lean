import LispFront.Proofs.Parse.Grouping

/-! # Brackets that are not closed yet

While brackets have been well nested so far, those that are not closed yet are those of
the constructs that are open, and within a form that is passed over those that are still
to be passed over (`State.matches_readAll`). -/

namespace LispFront

def Form.bracket : Form → Bracket
  | array => .square
  | call _ | body .. => .round

theorem Form.closing_eq (form : Form) : form.closing = form.bracket.closing := by
  cases form <;> rfl

def Frame.bracket : Frame → Bracket
  | sequence form _ _ => form.bracket
  | declaration .. => .round

/-- The brackets that are not closed yet besides those of the frames. Among those that are
passed over only the round ones are counted. -/
def Mode.Encloses : Mode → List Bracket → Prop
  | expression, inside => inside = []
  | head _, inside | name _, inside => inside = [.round]
  | skip _ nested, inside =>
      ∃ passed, inside = passed ++ [.round] ∧ passed.count .round = nested

def State.Matches (unclosed : List Bracket) (state : State) : Prop :=
  ∃ inside, state.mode.Encloses inside ∧
    unclosed = inside ++ state.frames.map Frame.bracket

namespace State

variable {finished : Array Expression} {frames : List Frame} {opening token : Token}
  {unclosed left : List Bracket}

private theorem matches_deliver (finished : Array Expression) (first : Token)
    (result : Option Expression) (frames : List Frame) :
    (deliver finished first result frames).1.Matches (frames.map Frame.bracket) := by
  rcases frames with _ | ⟨frame, frames⟩
  · cases result <;> exact ⟨[], rfl, rfl⟩
  cases frame with
  | sequence form opening items => cases result <;> exact ⟨[], rfl, rfl⟩
  | declaration opening name =>
      rcases result with _ | expression
      · exact ⟨[.round], ⟨[], rfl, rfl⟩, rfl⟩
      cases expression with
      | array bracket elements => exact ⟨[], rfl, rfl⟩
      | _ => exact ⟨[.round], ⟨[], rfl, rfl⟩, rfl⟩

private theorem matches_passOver {nested : Nat}
    (matched : Matches unclosed ⟨finished, frames, .skip opening nested⟩)
    (reads : Bracket.after? unclosed token = some left) :
    (passOver finished frames opening nested token).1.Matches left := by
  rcases matched with ⟨_, ⟨passed, rfl, counted⟩, rfl⟩
  change ((step ⟨finished, frames, .skip opening nested⟩ token).1).Matches left
  rcases Bracket.after?_cases reads with
    ⟨bracket, opens, rfl⟩ | ⟨bracket, closes, popped⟩ | ⟨plain, rfl⟩
  · cases bracket with
    | round =>
        rw [step_skip_leftRound nested opens]
        exact ⟨_, ⟨.round :: passed, rfl, by simp [counted]⟩, rfl⟩
    | square =>
        rw [step_skip nested (by simp [opens, Bracket.opening])
          (by simp [opens, Bracket.opening])]
        exact ⟨_, ⟨.square :: passed, rfl, by simp [counted]⟩, rfl⟩
  · rcases passed with _ | ⟨innermost, passed⟩
    · -- The bracket of the form itself is closed.
      rcases List.cons.inj popped with ⟨rfl, rfl⟩
      cases counted
      have delivered := matches_deliver finished opening none frames
      rw [← step_skip_last closes] at delivered
      exact delivered
    · rcases List.cons.inj popped with ⟨rfl, rfl⟩
      cases innermost with
      | round =>
          have more : nested = passed.count .round + 1 := by
            rw [← counted, List.count_cons_self]
          rw [more, step_skip_rightRound _ closes]
          exact ⟨_, ⟨passed, rfl, rfl⟩, rfl⟩
      | square =>
          rw [step_skip nested (by simp [closes, Bracket.closing])
            (by simp [closes, Bracket.closing])]
          exact ⟨_, ⟨passed, rfl, by simpa using counted⟩, rfl⟩
  · rw [step_skip nested (TokenKind.ne_of_nests plain rfl)
      (TokenKind.ne_of_nests plain rfl)]
    exact ⟨_, ⟨passed, rfl, counted⟩, rfl⟩

private theorem matches_rejectName
    (unnamed : unclosed = .round :: frames.map Frame.bracket)
    (reads : Bracket.after? unclosed token = some left) :
    (rejectName finished frames opening token).1.Matches left := by
  rw [rejectName_eq]
  have matched : Matches unclosed ⟨finished, frames, .skip opening 0⟩ :=
    ⟨[.round], ⟨[], rfl, rfl⟩, unnamed⟩
  exact matches_passOver matched reads

private theorem matches_readHead (unnamed : unclosed = .round :: frames.map Frame.bracket)
    (reads : Bracket.after? unclosed token = some left) :
    (readHead finished frames opening token).1.Matches left := by
  by_cases called : token.kind = .identifier ∨ token.isOperator = true
  · rw [Bracket.after?_plain (nests_eq_false_of_called called)] at reads
    cases reads
    by_cases keyword : token.kind = .identifier ∧ token.text = functionKeyword
    · rw [readHead_keyword keyword]
      exact ⟨[.round], rfl, unnamed⟩
    · rw [readHead_called keyword called]
      exact ⟨[], rfl, unnamed⟩
  · rw [readHead_rejected called]
    exact matches_rejectName unnamed reads

private theorem matches_readName (unnamed : unclosed = .round :: frames.map Frame.bracket)
    (reads : Bracket.after? unclosed token = some left) :
    (readName finished frames opening token).1.Matches left := by
  by_cases bracket : token.kind.isBracket = true
  · rw [readName_rejected bracket]
    exact matches_rejectName unnamed reads
  · have plain := TokenKind.nests_eq_false_of_isBracket (by simpa using bracket)
    rw [Bracket.after?_plain plain] at reads
    cases reads
    rw [readName_accepted bracket]
    exact ⟨[], rfl, unnamed⟩

private theorem matches_readPart
    (reads : Bracket.after? (frames.map Frame.bracket) token = some left) :
    (step ⟨finished, frames, .expression⟩ token).1.Matches left := by
  rcases Bracket.after?_cases reads with
    ⟨bracket, opens, rfl⟩ | ⟨bracket, closes, popped⟩ | ⟨plain, rfl⟩
  · cases bracket with
    | round =>
        rw [step_leftRound opens]
        exact ⟨[.round], rfl, rfl⟩
    | square =>
        rw [step_leftSquare opens]
        exact ⟨[], rfl, rfl⟩
  · rcases frames with _ | ⟨frame, frames⟩
    · cases popped
    rcases List.cons.inj popped with ⟨rfl, rfl⟩
    cases frame with
    | sequence form bracket items =>
        rw [step_closing (closes.trans form.closing_eq.symm)]
        exact matches_deliver finished bracket _ frames
    | declaration bracket name =>
        rw [step, readPart_missing closes]
        exact matches_deliver finished bracket none frames
  · rcases exists_step_eq_of_plain plain with ⟨result, reports, stepped⟩
    rw [stepped]
    exact matches_deliver finished token result frames

private theorem matches_step {state : State} (matched : state.Matches unclosed)
    (reads : Bracket.after? unclosed token = some left) :
    (state.step token).1.Matches left := by
  rcases state with ⟨finished, frames, mode⟩
  cases mode with
  | expression =>
      rcases matched with ⟨_, rfl, rfl⟩
      exact matches_readPart reads
  | head opening =>
      rcases matched with ⟨_, rfl, unnamed⟩
      exact matches_readHead unnamed reads
  | name opening =>
      rcases matched with ⟨_, rfl, unnamed⟩
      exact matches_readName unnamed reads
  | skip opening nested => exact matches_passOver matched reads

theorem matches_readAll {state : State} {words : List Token}
    (matched : state.Matches unclosed)
    (reads : Bracket.afterAll? unclosed words = some left) :
    (state.readAll words).1.Matches left := by
  induction words generalizing state unclosed with
  | nil =>
      cases reads
      exact matched
  | cons word words induction =>
      rw [Bracket.afterAll?_cons, Option.bind_eq_some_iff] at reads
      rcases reads with ⟨between, first, later⟩
      exact induction (matches_step matched first) later

theorem isIdle_of_wellNested {words : List Token} (nested : WellNested words) :
    (initial.readAll words).1.isIdle = true := by
  have matched : initial.Matches [] := ⟨[], rfl, rfl⟩
  rcases matches_readAll matched nested with ⟨inside, encloses, nothing⟩
  rcases List.nil_eq_append_iff.mp nothing with ⟨rfl, noFrames⟩
  generalize (initial.readAll words).1 = state at encloses noFrames
  rcases state with ⟨finished, frames, mode⟩
  cases List.map_eq_nil_iff.mp noFrames
  cases mode with
  | expression => rfl
  | head opening => cases encloses
  | name opening => cases encloses
  | skip opening nested =>
      rcases encloses with ⟨passed, equal, -⟩
      simp at equal

theorem exists_items_of_wellNested {before after : List Token} {form : Form}
    {elements : Array Expression} (nested : WellNested (before ++ after))
    (read : (initial.readAll before).1 =
      ⟨finished, .sequence form opening elements :: frames, .expression⟩) :
    ∃ items closing rest, after = Item.wordsAll items ++ closing :: rest ∧
      closing.kind = form.closing := by
  rw [WellNested, Bracket.afterAll?_append, Option.bind_eq_some_iff] at nested
  rcases nested with ⟨unclosed, first, later⟩
  have matched : initial.Matches [] := ⟨[], rfl, rfl⟩
  rcases read ▸ matches_readAll matched first with ⟨_, rfl, rfl⟩
  rcases Item.closes_of_afterAll? later with ⟨items, closing, rest, closes, split, -⟩
  exact ⟨items, closing, rest, split, closes.trans form.closing_eq.symm⟩

end State

end LispFront
