import LispFront.Parse.Step

/-! # Single steps by case

What a step does with a word, under the condition on the word that decides it. -/

namespace LispFront.State

variable {finished : Array Expression} {frames : List Frame} {opening name token : Token}
  {form : Form} {items : Array Expression}

theorem readPart_closing (closes : token.kind = form.closing) :
    readPart finished token (.sequence form opening items :: frames) =
      deliver finished opening (some (form.build opening items.toList)) frames :=
  if_pos closes

theorem readPart_item (inside : token.kind ≠ form.closing) :
    readPart finished token (.sequence form opening items :: frames) =
      readExpression finished (.sequence form opening items :: frames) token :=
  if_neg inside

theorem readPart_missing (closes : token.kind = .rightRound) :
    readPart finished token (.declaration opening name :: frames) =
      report (.expectedParameters token.kind.spelling token.position)
        (deliver finished opening none frames) :=
  if_pos closes

theorem readPart_parameters (inside : token.kind ≠ .rightRound) :
    readPart finished token (.declaration opening name :: frames) =
      readExpression finished (.declaration opening name :: frames) token :=
  if_neg inside

theorem readPart_of_ne (round : token.kind ≠ .rightRound)
    (square : token.kind ≠ .rightSquare) :
    readPart finished token frames = readExpression finished frames token := by
  rcases frames with _ | ⟨frame, frames⟩
  · rfl
  · cases frame with
    | sequence form opening items =>
        apply readPart_item
        cases form with
        | array => exact square
        | call function => exact round
        | body name parameters => exact round
    | declaration opening name => exact readPart_parameters round

theorem rejectName_eq (finished : Array Expression) (frames : List Frame)
    (opening token : Token) :
    rejectName finished frames opening token =
      report (.invalidFunctionName token.kind token.position)
        (passOver finished frames opening 0 token) := by
  rcases token with ⟨kind, text, position⟩
  cases kind <;> rfl

theorem readHead_keyword
    (keyword : token.kind = .identifier ∧ token.text = functionKeyword) :
    readHead finished frames opening token = (⟨finished, frames, .name opening⟩, []) :=
  if_pos keyword

theorem readHead_called
    (named : ¬(token.kind = .identifier ∧ token.text = functionKeyword))
    (called : token.kind = .identifier ∨ token.isOperator = true) :
    readHead finished frames opening token =
      (⟨finished, .sequence (.call token) opening #[] :: frames, .expression⟩, []) :=
  (if_neg named).trans (if_pos called)

theorem readHead_rejected
    (rejected : ¬(token.kind = .identifier ∨ token.isOperator = true)) :
    readHead finished frames opening token = rejectName finished frames opening token :=
  (if_neg fun keyword => rejected (.inl keyword.1)).trans (if_neg rejected)

theorem readName_rejected (bracket : token.kind.isBracket = true) :
    readName finished frames opening token = rejectName finished frames opening token :=
  if_pos bracket

theorem readName_accepted (bracket : token.kind.isBracket ≠ true) :
    readName finished frames opening token =
      (⟨finished, .declaration opening token :: frames, .expression⟩, []) :=
  if_neg bracket

theorem step_closing (closes : token.kind = form.closing) :
    step ⟨finished, .sequence form opening items :: frames, .expression⟩ token =
      deliver finished opening (some (form.build opening items.toList)) frames :=
  readPart_closing closes

/-! ## Words that begin an expression -/

theorem step_expression (round : token.kind ≠ .rightRound)
    (square : token.kind ≠ .rightSquare) :
    step ⟨finished, frames, .expression⟩ token = readExpression finished frames token :=
  readPart_of_ne round square

theorem step_number (kind : token.kind = .number) :
    step ⟨finished, frames, .expression⟩ token =
      deliver finished token (some (.number token token.text)) frames := by
  rw [step_expression (by simp [kind]) (by simp [kind])]
  simp only [readExpression, kind]

theorem step_string (kind : token.kind = .string) :
    step ⟨finished, frames, .expression⟩ token =
      deliver finished token (some (.string token token.text)) frames := by
  rw [step_expression (by simp [kind]) (by simp [kind])]
  simp only [readExpression, kind]

theorem step_identifier (kind : token.kind = .identifier) :
    step ⟨finished, frames, .expression⟩ token =
      deliver finished token (some (.identifier (.ofToken token))) frames := by
  rw [step_expression (by simp [kind]) (by simp [kind])]
  simp only [readExpression, kind]

theorem step_leftSquare (kind : token.kind = .leftSquare) :
    step ⟨finished, frames, .expression⟩ token =
      (⟨finished, .sequence .array token #[] :: frames, .expression⟩, []) := by
  rw [step_expression (by simp [kind]) (by simp [kind])]
  simp only [readExpression, kind]

theorem step_leftRound (kind : token.kind = .leftRound) :
    step ⟨finished, frames, .expression⟩ token =
      (⟨finished, frames, .head token⟩, []) := by
  rw [step_expression (by simp [kind]) (by simp [kind])]
  simp only [readExpression, kind]

end LispFront.State
