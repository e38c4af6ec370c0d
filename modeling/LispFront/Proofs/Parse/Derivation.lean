import LispFront.Proofs.Parse.Reading
import LispFront.Proofs.Parse.Step
import LispFront.Proofs.Syntax.Grammar
import LispFront.Proofs.Token.Tokenization

/-! # Derivations

What has been read without a diagnostic is the written form of what is finished and of
what is open (`State.Derives`). -/

namespace LispFront

/-! ## Open constructs

An open construct is written as far as it has been read. -/

namespace Form

def Valid (opening : Token) : Form → Prop
  | array => opening.kind = .leftSquare
  | call function => opening.kind = .leftRound ∧ function.HeadsCall
  | body name parameters =>
      opening.kind = .leftRound ∧ name.NamesFunction ∧
        ∀ parameter ∈ parameters, parameter.Valid

def marks (opening : Token) : Form → List Mark
  | array => [.kept opening]
  | call function => [.kept opening, .kept function]
  | body name parameters =>
      .kept opening :: .keyword :: .kept name :: .leftSquare ::
        (parameters.map Identifier.mark ++ [.rightSquare])

def closingMark : Form → Mark
  | array => .rightSquare
  | call _ | body .. => .rightRound

theorem valid_build {form : Form} {opening : Token} {items : List Expression}
    (valid : form.Valid opening) (allValid : AllValid items) :
    (form.build opening items).Valid := by
  cases form with
  | array => exact ⟨valid, allValid⟩
  | call function => exact ⟨valid.1, valid.2, allValid⟩
  | body name parameters => exact ⟨valid.1, valid.2.1, valid.2.2, allValid⟩

theorem marks_build (form : Form) (opening : Token) (items : List Expression) :
    (form.build opening items).marks =
      form.marks opening ++ (marksAll items ++ [form.closingMark]) := by
  cases form <;> simp [build, marks, closingMark, Expression.marks]

theorem fits_closingMark {form : Form} {word : Token} (closes : word.kind = form.closing)
    (spelled : word.IsSpelled) : form.closingMark.Fits word := by
  cases form with
  | array => exact ⟨closes, spelled ']' (by rw [closes]; rfl)⟩
  | call function => exact ⟨closes, spelled ')' (by rw [closes]; rfl)⟩
  | body name parameters => exact ⟨closes, spelled ')' (by rw [closes]; rfl)⟩

end Form

namespace Frame

def Valid : Frame → Prop
  | sequence form opening items => form.Valid opening ∧ AllValid items.toList
  | declaration opening name => opening.kind = .leftRound ∧ name.NamesFunction

def marks : Frame → List Mark
  | sequence form opening items => form.marks opening ++ marksAll items.toList
  | declaration opening name => [.kept opening, .keyword, .kept name]

/-- The frames stand innermost first, and are written outermost first. -/
def marksAll : List Frame → List Mark
  | [] => []
  | frame :: frames => marksAll frames ++ frame.marks

end Frame

namespace Mode

def Valid : Mode → Prop
  | expression => True
  | head opening | name opening => opening.kind = .leftRound
  | skip .. => False

def marks : Mode → List Mark
  | expression => []
  | head opening => [.kept opening]
  | name opening => [.kept opening, .keyword]
  | skip .. => []

end Mode

/-- `words` are what is finished, what is open and then `marks`, all valid. -/
structure Derived (finished : Array Expression) (frames : List Frame) (marks : List Mark)
    (words : List Token) : Prop where
  finishedValid : AllValid finished.toList
  framesValid : ∀ frame ∈ frames, frame.Valid
  spelled : ∀ word ∈ words, word.IsSpelled
  fits :
    List.Forall₂ Mark.Fits
      (marksAll finished.toList ++ (Frame.marksAll frames ++ marks)) words

structure State.Derives (words : List Token) (state : State) : Prop where
  derived : Derived state.finished state.frames state.mode.marks words
  modeValid : state.mode.Valid

namespace Derived

variable {finished : Array Expression} {frames : List Frame} {marks : List Mark}
  {words : List Token}

theorem read {mark : Mark} {word : Token} (derived : Derived finished frames marks words)
    (spelled : word.IsSpelled) (fits : mark.Fits word) :
    Derived finished frames (marks ++ [mark]) (words ++ [word]) := by
  refine ⟨derived.finishedValid, derived.framesValid, ?_, ?_⟩
  · exact List.forall_mem_append.mpr
      ⟨derived.spelled, List.forall_mem_singleton.mpr spelled⟩
  · have extended := List.rel_append derived.fits (.cons fits .nil)
    simpa only [List.append_assoc] using extended

theorem forget {before after : List Mark} {mark : Mark} (mark' : Mark)
    (derived : Derived finished frames (before ++ mark :: after) words)
    (weaker : ∀ word ∈ words, mark.Fits word → mark'.Fits word) :
    Derived finished frames (before ++ mark' :: after) words := by
  refine ⟨derived.finishedValid, derived.framesValid, derived.spelled, ?_⟩
  have fits := derived.fits
  rw [← List.append_assoc, ← List.append_assoc] at fits ⊢
  -- The marks in front may be any marks; they fit the words in front.
  generalize marksAll finished.toList ++ Frame.marksAll frames ++ before = front at fits ⊢
  clear derived
  induction front generalizing words with
  | nil =>
      cases fits with
      | cons fits rest => exact .cons ((List.forall_mem_cons.mp weaker).1 fits) rest
  | cons first front induction =>
      cases fits with
      | cons fits rest =>
          exact .cons fits (induction (List.forall_mem_cons.mp weaker).2 rest)

theorem openFrame {frame : Frame}
    (derived : Derived finished frames (frame.marks ++ marks) words)
    (valid : frame.Valid) : Derived finished (frame :: frames) marks words := by
  refine ⟨derived.finishedValid, List.forall_mem_cons.mpr ⟨valid, derived.framesValid⟩,
    derived.spelled, ?_⟩
  rw [Frame.marksAll, List.append_assoc]
  exact derived.fits

theorem closeFrame {frame : Frame}
    (derived : Derived finished (frame :: frames) marks words) :
    Derived finished frames (frame.marks ++ marks) words := by
  refine ⟨derived.finishedValid, (List.forall_mem_cons.mp derived.framesValid).2,
    derived.spelled, ?_⟩
  have fits := derived.fits
  rw [Frame.marksAll, List.append_assoc] at fits
  exact fits

end Derived

/-! ## Steps without a diagnostic -/

private theorem eq_map_identifier_of_silent {elements : List Expression}
    (silent : elements.filterMap parameterProblem? = []) :
    elements =
      (elements.filterMap Expression.asIdentifier?).map Expression.identifier := by
  rw [List.filterMap_eq_nil_iff] at silent
  induction elements with
  | nil => rfl
  | cons element rest induction =>
      rcases List.forall_mem_cons.mp silent with ⟨first, later⟩
      cases element with
      | identifier name => exact congrArg _ (induction later)
      | number token value => cases first
      | string token value => cases first
      | array opening elements => cases first
      | call opening function arguments => cases first
      | function opening name parameters body => cases first

private theorem forall_valid_of_allValid_map {identifiers : List Identifier}
    (allValid : AllValid (identifiers.map Expression.identifier)) :
    ∀ identifier ∈ identifiers, identifier.Valid := by
  induction identifiers with
  | nil => simp
  | cons identifier rest induction =>
      exact List.forall_mem_cons.mpr ⟨allValid.1, induction allValid.2⟩

namespace State

variable {finished : Array Expression} {frames : List Frame} {words : List Token}

theorem derives_parameters {opening name bracket : Token} {elements : List Expression}
    (first : Token) (derived : Derived finished frames
      (Frame.marks (.declaration opening name) ++
        (Expression.array bracket elements).marks) words)
    (frameValid : Frame.Valid (.declaration opening name))
    (valid : (Expression.array bracket elements).Valid)
    (silent : elements.filterMap parameterProblem? = []) :
    (deliver finished first (some (.array bracket elements))
      (.declaration opening name :: frames)).1.Derives words := by
  rcases valid with ⟨bracketKind, elementsValid⟩
  have names := eq_map_identifier_of_silent silent
  have written := marksAll_map_identifier (elements.filterMap Expression.asIdentifier?)
  rw [← names] at written
  rw [names] at elementsValid
  have parametersValid := forall_valid_of_allValid_map elementsValid
  have marks : Frame.marks (.declaration opening name) ++
      (Expression.array bracket elements).marks =
        [.kept opening, .keyword, .kept name] ++
          .kept bracket ::
            ((elements.filterMap Expression.asIdentifier?).map Identifier.mark ++
              [.rightSquare]) := by
    rw [← written]
    rfl
  rw [marks] at derived
  have forgotten := derived.forget .leftSquare fun word member fits => by
    have kind : word.kind = .leftSquare := by
      rw [← show bracket = word from fits]
      exact bracketKind
    exact ⟨kind, derived.spelled word member '[' (by rw [kind]; rfl)⟩
  refine ⟨Derived.openFrame ?_ ⟨⟨frameValid.1, frameValid.2, parametersValid⟩, trivial⟩,
    trivial⟩
  simpa [deliver, Mode.marks, Frame.marks, Form.marks, marksAll] using forgotten

theorem derives_deliver {expression : Expression} (first : Token)
    (derived : Derived finished frames expression.marks words) (valid : expression.Valid)
    (silent : (deliver finished first (some expression) frames).2 = []) :
    (deliver finished first (some expression) frames).1.Derives words := by
  cases frames with
  | nil =>
      refine ⟨⟨allValid_push derived.finishedValid valid, derived.framesValid,
        derived.spelled, ?_⟩, trivial⟩
      simpa [deliver, Mode.marks, Frame.marksAll, marksAll_append,
        marksAll] using derived.fits
  | cons frame frames =>
      have closed := derived.closeFrame
      have frameValid := derived.framesValid frame List.mem_cons_self
      cases frame with
      | sequence form opening items =>
          refine ⟨Derived.openFrame ?_ ⟨frameValid.1, allValid_push frameValid.2 valid⟩,
            trivial⟩
          simpa [deliver, Mode.marks, Frame.marks, marksAll_append, marksAll] using closed
      | declaration opening name =>
          cases expression with
          | array bracket elements =>
              exact derives_parameters first closed frameValid valid silent
          | number token value => cases silent
          | string token value => cases silent
          | identifier name => cases silent
          | call opening function arguments => cases silent
          | function opening name parameters body => cases silent

private theorem derives_readExpression {token : Token}
    (derived : Derived finished frames [] words) (spelled : token.IsSpelled)
    (silent : (readExpression finished frames token).2 = []) :
    (readExpression finished frames token).1.Derives (words ++ [token]) := by
  have read : Derived finished frames [.kept token] (words ++ [token]) :=
    derived.read spelled rfl
  unfold readExpression at silent ⊢
  split at silent
  case h_1 kind => exact derives_deliver token read ⟨kind, rfl⟩ silent
  case h_2 kind => exact derives_deliver token read ⟨kind, rfl⟩ silent
  case h_3 kind => exact derives_deliver token read ⟨kind, rfl⟩ silent
  case h_4 kind => exact ⟨Derived.openFrame read ⟨kind, trivial⟩, trivial⟩
  case h_5 kind => exact ⟨read, kind⟩
  case h_6 => cases silent

private theorem derives_readPart {token : Token}
    (derived : Derived finished frames [] words) (spelled : token.IsSpelled)
    (silent : (readPart finished token frames).2 = []) :
    (readPart finished token frames).1.Derives (words ++ [token]) := by
  cases frames with
  | nil => exact derives_readExpression derived spelled silent
  | cons frame frames =>
      cases frame with
      | sequence form opening items =>
          by_cases closes : token.kind = form.closing
          · have frameValid := derived.framesValid _ List.mem_cons_self
            rw [readPart_closing closes] at silent ⊢
            refine derives_deliver opening ?_
              (Form.valid_build frameValid.1 frameValid.2) silent
            rw [Form.marks_build, ← List.append_assoc]
            have closed := derived.closeFrame
            rw [List.append_nil] at closed
            exact closed.read spelled (Form.fits_closingMark closes spelled)
          · rw [readPart_item closes] at silent ⊢
            exact derives_readExpression derived spelled silent
      | declaration opening name =>
          by_cases closes : token.kind = .rightRound
          · rw [readPart_missing closes] at silent
            cases silent
          · rw [readPart_parameters closes] at silent ⊢
            exact derives_readExpression derived spelled silent

private theorem derives_readHead {opening token : Token}
    (derived : Derived finished frames [.kept opening] words)
    (opens : opening.kind = .leftRound) (spelled : token.IsSpelled)
    (silent : (readHead finished frames opening token).2 = []) :
    (readHead finished frames opening token).1.Derives (words ++ [token]) := by
  by_cases keyword : token.kind = .identifier ∧ token.text = functionKeyword
  · rw [readHead_keyword keyword]
    exact ⟨derived.read spelled keyword, opens⟩
  · by_cases called : token.kind = .identifier ∨ token.isOperator
    · have heads : token.HeadsCall := by
        rcases called with named | operator
        · exact .inr ⟨named, fun text => keyword ⟨named, text⟩⟩
        · exact .inl operator
      have read :
          Derived finished frames [.kept opening, .kept token] (words ++ [token]) :=
        derived.read spelled rfl
      rw [readHead_called keyword called]
      exact ⟨Derived.openFrame read ⟨⟨opens, heads⟩, trivial⟩, trivial⟩
    · rw [readHead_rejected called] at silent
      cases silent

private theorem derives_readName {opening token : Token}
    (derived : Derived finished frames [.kept opening, .keyword] words)
    (opens : opening.kind = .leftRound) (spelled : token.IsSpelled)
    (more : token.kind ≠ .endOfInput)
    (silent : (readName finished frames opening token).2 = []) :
    (readName finished frames opening token).1.Derives (words ++ [token]) := by
  by_cases bracket : token.kind.isBracket
  · rw [readName_rejected bracket] at silent
    cases silent
  · have names : token.NamesFunction := ⟨more, by simpa using bracket⟩
    have read :
        Derived finished frames [.kept opening, .keyword, .kept token]
          (words ++ [token]) :=
      derived.read spelled rfl
    rw [readName_accepted bracket]
    exact ⟨Derived.openFrame read ⟨opens, names⟩, trivial⟩

private theorem derives_step {state : State} {token : Token}
    (derives : state.Derives words) (spelled : token.IsSpelled)
    (more : token.kind ≠ .endOfInput) (silent : (state.step token).2 = []) :
    (state.step token).1.Derives (words ++ [token]) := by
  rcases state with ⟨finished, frames, mode⟩
  rcases derives with ⟨derived, modeValid⟩
  cases mode with
  | expression => exact derives_readPart derived spelled silent
  | head opening => exact derives_readHead derived modeValid spelled silent
  | name opening => exact derives_readName derived modeValid spelled more silent
  | skip opening nested => cases modeValid

theorem derives_readAll {state : State} {more : List Token}
    (derives : state.Derives words) (spelled : ∀ word ∈ more, word.IsSpelled)
    (words_ne : ∀ word ∈ more, word.kind ≠ .endOfInput)
    (silent : (state.readAll more).2 = []) :
    (state.readAll more).1.Derives (words ++ more) := by
  induction more generalizing state words with
  | nil => simpa [readAll] using derives
  | cons word rest induction =>
      rw [readAll, List.append_eq_nil_iff] at silent
      rcases List.forall_mem_cons.mp spelled with ⟨wordSpelled, restSpelled⟩
      rcases List.forall_mem_cons.mp words_ne with ⟨word_ne, rest_ne⟩
      have stepped := derives_step derives wordSpelled word_ne silent.1
      have later := induction stepped restSpelled rest_ne silent.2
      simpa [readAll] using later

end State

end LispFront
