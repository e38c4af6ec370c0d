import LispFront.Proofs.Parse.Step

/-! # Transitions

All that the reading of one word can do, in one list: what holds of every transition holds
of every step (`State.transition_step`). -/

namespace LispFront

def TokenKind.begins : TokenKind → Bool
  | .number | .string | .identifier | .leftSquare | .leftRound => true
  | _ => false

theorem TokenKind.isOperator_eq_false_of_isBracket {kind : TokenKind}
    (bracket : kind.isBracket = true) : kind.isOperator = false := by
  cases kind <;> first | rfl | cases bracket

def Token.leaf? (token : Token) : Option Expression :=
  match token.kind with
  | .number => some (.number token token.text)
  | .string => some (.string token token.text)
  | .identifier => some (.identifier (.ofToken token))
  | _ => none

namespace State

/-- What may come of it when `token` is read in a state with these frames and this
mode. -/
inductive Transition (finished : Array Expression) (token : Token) :
    List Frame → Mode → State × List Diagnostic → Prop
  | leaf {frames : List Frame} {expression : Expression}
      (reads : token.leaf? = some expression) :
      Transition finished token frames .expression
        (deliver finished token (some expression) frames)
  | array {frames : List Frame} (opens : token.kind = .leftSquare) :
      Transition finished token frames .expression
        (⟨finished, .sequence .array token #[] :: frames, .expression⟩, [])
  | round {frames : List Frame} (opens : token.kind = .leftRound) :
      Transition finished token frames .expression (⟨finished, frames, .head token⟩, [])
  | close {frames : List Frame} {form : Form} {opening : Token} {items : Array Expression}
      (closes : token.kind = form.closing) :
      Transition finished token (.sequence form opening items :: frames) .expression
        (deliver finished opening (some (form.build opening items.toList)) frames)
  | missing {frames : List Frame} {opening name : Token}
      (closes : token.kind = .rightRound) :
      Transition finished token (.declaration opening name :: frames) .expression
        (report (.expectedParameters token.kind.spelling token.position)
          (deliver finished opening none frames))
  | stray {frames : List Frame} (strays : token.kind.begins = false) :
      Transition finished token frames .expression
        (report (.noExpression token.kind token.position)
          (deliver finished token none frames))
  | keyword {frames : List Frame} {opening : Token}
      (keyword : token.kind = .identifier ∧ token.text = functionKeyword) :
      Transition finished token frames (.head opening)
        (⟨finished, frames, .name opening⟩, [])
  | call {frames : List Frame} {opening : Token}
      (other : ¬(token.kind = .identifier ∧ token.text = functionKeyword))
      (called : token.kind = .identifier ∨ token.isOperator = true) :
      Transition finished token frames (.head opening)
        (⟨finished, .sequence (.call token) opening #[] :: frames, .expression⟩, [])
  | name {frames : List Frame} {opening : Token} (named : token.kind.isBracket = false) :
      Transition finished token frames (.name opening)
        (⟨finished, .declaration opening token :: frames, .expression⟩, [])
  | reject {frames : List Frame} {mode : Mode} {opening : Token}
      (asked : mode = .head opening ∨ mode = .name opening)
      (rejected : ¬(token.kind = .identifier ∨ token.isOperator = true)) :
      Transition finished token frames mode
        (report (.invalidFunctionName token.kind token.position)
          (passOver finished frames opening 0 token))
  | pass {frames : List Frame} {opening : Token} {nested : Nat} :
      Transition finished token frames (.skip opening nested)
        (passOver finished frames opening nested token)

variable (finished : Array Expression) (frames : List Frame) (token : Token)

private theorem transition_readExpression :
    Transition finished token frames .expression
      (readExpression finished frames token) := by
  unfold readExpression
  split
  case h_1 kind => exact .leaf (by simp only [Token.leaf?, kind])
  case h_2 kind => exact .leaf (by simp only [Token.leaf?, kind])
  case h_3 kind => exact .leaf (by simp only [Token.leaf?, kind])
  case h_4 kind => exact .array kind
  case h_5 kind => exact .round kind
  case h_6 =>
    apply Transition.stray
    rcases token with ⟨kind, text, position⟩
    cases kind <;> first | rfl | contradiction

private theorem transition_readPart :
    Transition finished token frames .expression (readPart finished token frames) := by
  rcases frames with _ | ⟨frame, frames⟩
  · exact transition_readExpression finished [] token
  cases frame with
  | sequence form opening items =>
      by_cases closes : token.kind = form.closing
      · rw [readPart_closing closes]
        exact .close closes
      · rw [readPart_item closes]
        exact transition_readExpression _ _ _
  | declaration opening name =>
      by_cases closes : token.kind = .rightRound
      · rw [readPart_missing closes]
        exact .missing closes
      · rw [readPart_parameters closes]
        exact transition_readExpression _ _ _

private theorem transition_readHead (opening : Token) :
    Transition finished token frames (.head opening)
      (readHead finished frames opening token) := by
  by_cases keyword : token.kind = .identifier ∧ token.text = functionKeyword
  · rw [readHead_keyword keyword]
    exact .keyword keyword
  by_cases called : token.kind = .identifier ∨ token.isOperator = true
  · rw [readHead_called keyword called]
    exact .call keyword called
  · rw [readHead_rejected called, rejectName_eq]
    exact .reject (.inl rfl) called

private theorem transition_readName (opening : Token) :
    Transition finished token frames (.name opening)
      (readName finished frames opening token) := by
  by_cases bracket : token.kind.isBracket = true
  · rw [readName_rejected bracket, rejectName_eq]
    refine .reject (.inr rfl) ?_
    rintro (named | operator)
    · rw [named] at bracket
      cases bracket
    · rw [Token.isOperator,
        TokenKind.isOperator_eq_false_of_isBracket bracket] at operator
      cases operator
  · rw [readName_accepted bracket]
    exact .name (by simpa using bracket)

theorem transition_step (mode : Mode) :
    Transition finished token frames mode (step ⟨finished, frames, mode⟩ token) := by
  cases mode with
  | expression => exact transition_readPart finished frames token
  | head opening => exact transition_readHead finished frames token opening
  | name opening => exact transition_readName finished frames token opening
  | skip opening nested => exact .pass

theorem passOver_cases (opening : Token) (nested : Nat) :
    (∃ nested', passOver finished frames opening nested token =
        (⟨finished, frames, .skip opening nested'⟩, [])) ∨
      token.kind = .rightRound ∧
        passOver finished frames opening nested token =
          deliver finished opening none frames := by
  unfold passOver
  split
  case h_1 => exact .inl ⟨_, rfl⟩
  case h_2 => exact .inl ⟨_, rfl⟩
  case h_3 closes => exact .inr ⟨closes, rfl⟩
  case h_4 => exact .inl ⟨_, rfl⟩

end State

end LispFront
