import LispFront.Proofs.Parse.Ending
import LispFront.Proofs.Parse.Transition

/-! # Open brackets

The brackets of all that is open are a stack: a word puts itself on top or takes brackets
off (`State.Transition.openings`). So they are words of the text, the innermost the last
of them (`State.sublist_openings_readAll`). What is reported as dropped is a word just
read or the bracket on top, and something is open around it
(`State.mem_of_elementDropped_readAll`). -/

namespace LispFront

def TokenKind.opens : TokenKind → Bool
  | .leftRound | .leftSquare => true
  | _ => false

def Frame.opening : Frame → Token
  | sequence _ opening _ | declaration opening _ => opening

def Mode.opening? : Mode → Option Token
  | expression => none
  | head opening | name opening | skip opening _ => some opening

namespace State

def openings (state : State) : List Token :=
  state.mode.opening?.toList ++ state.frames.map Frame.opening

variable {finished : Array Expression} {frames : List Frame} {mode : Mode}
  {token first : Token} {outcome : State × List Diagnostic}

/-! ## The stack of brackets -/

@[simp] theorem openings_initial : initial.openings = [] := rfl

@[simp] theorem openings_deliver (finished : Array Expression) (first : Token)
    (result : Option Expression) (frames : List Frame) :
    (deliver finished first result frames).1.openings = frames.map Frame.opening := by
  rcases frames with _ | ⟨frame, frames⟩
  · cases result <;> rfl
  cases frame with
  | sequence form opening items => cases result <;> rfl
  | declaration opening name =>
      rcases result with _ | expression
      · rfl
      · cases expression <;> rfl

private theorem openings_passOver (opening : Token) (nested : Nat) :
    (passOver finished frames opening nested token).1.openings <:+
      opening :: frames.map Frame.opening := by
  rcases passOver_cases finished frames token opening nested with
    ⟨nested', passed⟩ | ⟨-, given⟩
  · rw [passed]
    exact List.suffix_rfl
  · rw [given, openings_deliver]
    exact List.suffix_cons _ _

theorem Transition.openings (transition : Transition finished token frames mode outcome) :
    outcome.1.openings <:+ State.openings ⟨finished, frames, mode⟩ ∨
      token.kind.opens = true ∧
        outcome.1.openings = token :: State.openings ⟨finished, frames, mode⟩ := by
  cases transition with
  | leaf => exact .inl (by rw [openings_deliver]; exact List.suffix_rfl)
  | array kind => exact .inr ⟨by rw [kind]; rfl, rfl⟩
  | round kind => exact .inr ⟨by rw [kind]; rfl, rfl⟩
  | close => exact .inl (by rw [openings_deliver]; exact List.suffix_cons _ _)
  | missing => exact .inl (by rw [report, openings_deliver]; exact List.suffix_cons _ _)
  | stray => exact .inl (by rw [report, openings_deliver]; exact List.suffix_rfl)
  | keyword => exact .inl List.suffix_rfl
  | call => exact .inl List.suffix_rfl
  | name => exact .inl List.suffix_rfl
  | reject asked =>
      rcases asked with rfl | rfl
      · exact .inl (openings_passOver _ 0)
      · exact .inl (openings_passOver _ 0)
  | pass => exact .inl (openings_passOver _ _)

theorem openings_step (state : State) (token : Token) :
    (state.step token).1.openings <:+ state.openings ∨
      token.kind.opens = true ∧ (state.step token).1.openings = token :: state.openings :=
  (transition_step state.finished state.frames token state.mode).openings

theorem sublist_openings_readAll (state : State) (words : List Token) :
    ((state.readAll words).1.openings).Sublist
      ((words.filter (·.kind.opens)).reverse ++ state.openings) := by
  induction words generalizing state with
  | nil => exact List.Sublist.refl _
  | cons word words induction =>
      have later := induction (state.step word).1
      rcases openings_step state word with fewer | ⟨opens, pushed⟩
      · refine later.trans (List.Sublist.append ?_ fewer.sublist)
        exact ((List.sublist_cons_self word words).filter _).reverse
      · have counted : (word :: words).filter (·.kind.opens) =
            word :: words.filter (·.kind.opens) :=
          List.filter_cons_of_pos opens
        rw [counted, List.reverse_cons, List.append_assoc,
          List.singleton_append, ← pushed]
        exact later

theorem mem_words_of_mem_openings {words : List Token}
    (member : first ∈ (initial.readAll words).1.openings) : first ∈ words := by
  have within := (sublist_openings_readAll initial words).subset member
  simp only [openings_initial, List.append_nil, List.mem_reverse] at within
  exact (List.mem_filter.mp within).1

/-! ## Elements that are dropped -/

theorem eq_of_elementDropped_deliver {bracket : Token} {result : Option Expression}
    (member : .elementDropped bracket ∈ (deliver finished first result frames).2) :
    bracket = first ∧ frames ≠ [] := by
  rcases frames with _ | ⟨frame, frames⟩
  · cases result <;> cases member
  refine ⟨?_, List.cons_ne_nil _ _⟩
  rcases mem_deliver member with same | ⟨_, _, other⟩ | ⟨_, _, other⟩
  · exact Diagnostic.elementDropped.inj same
  · cases other
  · cases other

theorem Transition.mem_dropLast_of_elementDropped
    (transition : Transition finished token frames mode outcome)
    (member : .elementDropped first ∈ outcome.2) :
    first ∈ (token :: State.openings ⟨finished, frames, mode⟩).dropLast := by
  have word {result : Option Expression}
      (member : .elementDropped first ∈ (deliver finished token result frames).2) :
      first ∈ (token :: frames.map Frame.opening).dropLast := by
    rcases eq_of_elementDropped_deliver member with ⟨rfl, around⟩
    simp [List.dropLast_cons_of_ne_nil, around]
  have bracket {opening : Token} {frames : List Frame} {result : Option Expression}
      (member : .elementDropped first ∈ (deliver finished opening result frames).2) :
      first ∈ (token :: opening :: frames.map Frame.opening).dropLast := by
    rcases eq_of_elementDropped_deliver member with ⟨rfl, around⟩
    simp [List.dropLast_cons_of_ne_nil, around]
  have passed {opening : Token} {nested : Nat}
      (member :
        .elementDropped first ∈ (passOver finished frames opening nested token).2) :
      first ∈ (token :: opening :: frames.map Frame.opening).dropLast := by
    rcases passOver_cases finished frames token opening nested with
      ⟨nested', passes⟩ | ⟨-, given⟩
    · rw [passes] at member
      cases member
    · rw [given] at member
      exact bracket member
  cases transition with
  | leaf => exact word member
  | array => cases member
  | round => cases member
  | close => exact bracket member
  | missing =>
      rcases List.mem_cons.mp member with other | member
      · cases other
      · exact bracket member
  | stray =>
      rcases List.mem_cons.mp member with other | member
      · cases other
      · exact word member
  | keyword => cases member
  | call => cases member
  | name => cases member
  | reject asked =>
      rcases List.mem_cons.mp member with other | member
      · cases other
      · rcases asked with rfl | rfl
        · exact passed member
        · exact passed member
  | pass => exact passed member

private theorem mem_dropLast_of_suffix {short long : List Token} (fewer : short <:+ long)
    (member : first ∈ short.dropLast) : first ∈ long.dropLast := by
  rcases fewer with ⟨front, rfl⟩
  have filled : short ≠ [] := by
    rintro rfl
    cases member
  rw [List.dropLast_append_of_ne_nil filled]
  exact List.mem_append_right _ member

theorem mem_of_elementDropped_readAll {state : State} {words : List Token}
    (member : .elementDropped first ∈ (state.readAll words).2) :
    first ∈ words ∨ first ∈ state.openings.dropLast := by
  induction words generalizing state with
  | nil => cases member
  | cons word words induction =>
      have stepped (within : first ∈ (word :: state.openings).dropLast) :
          first ∈ word :: words ∨ first ∈ state.openings.dropLast := by
        by_cases none : state.openings = []
        · rw [none] at within
          cases within
        · rw [List.dropLast_cons_of_ne_nil none] at within
          rcases List.mem_cons.mp within with rfl | within
          · exact .inl List.mem_cons_self
          · exact .inr within
      rcases List.mem_append.mp member with member | member
      · have transition := transition_step state.finished state.frames word state.mode
        exact stepped (transition.mem_dropLast_of_elementDropped member)
      · rcases induction member with later | within
        · exact .inl (List.mem_cons_of_mem _ later)
        · rcases openings_step state word with fewer | ⟨-, pushed⟩
          · exact .inr (mem_dropLast_of_suffix fewer within)
          · rw [pushed] at within
            exact stepped within

end State

end LispFront
