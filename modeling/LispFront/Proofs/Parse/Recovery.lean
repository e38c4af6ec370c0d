import LispFront.Proofs.Parse.Acceptance
import LispFront.Proofs.Parse.Transition
import LispFront.Proofs.Parse.Truncation
import LispFront.Proofs.Syntax.Tokens
import LispFront.Proofs.Token.Blanking
import Mathlib.Data.List.Perm.Subperm

/-! # Recovery

Whatever is wrong with a text, some of its words are the written form of all that has been
finished and of all that is open (`State.Salvages`). The text in which all other words are
blanked is read without a diagnostic, and as the same program
(`Reading.recovers_ofText`). -/

namespace LispFront

/-! ## Leaving out words -/

theorem Mark.exists_sublist_of_fits {marks marks' : List Mark} {words : List Token}
    (sublist : marks'.Sublist marks) (fits : List.Forall₂ Fits marks words) :
    ∃ kept, kept.Sublist words ∧ List.Forall₂ Fits marks' kept := by
  induction sublist generalizing words with
  | slnil => exact ⟨words, List.Sublist.refl words, fits⟩
  | cons mark sublist induction =>
      rcases fits with _ | ⟨-, fits⟩
      rcases induction fits with ⟨kept, within, fits⟩
      exact ⟨kept, within.cons _, fits⟩
  | cons_cons mark sublist induction =>
      rcases fits with _ | ⟨first, fits⟩
      rcases induction fits with ⟨kept, within, fits⟩
      exact ⟨_ :: kept, within.cons_cons _, .cons first fits⟩

theorem Derived.thin {finished : Array Expression} {frames frames' : List Frame}
    {marks marks' : List Mark} {words : List Token}
    (derived : Derived finished frames marks words)
    (within : ∀ frame ∈ frames', frame ∈ frames)
    (sublist :
      (Frame.marksAll frames' ++ marks').Sublist (Frame.marksAll frames ++ marks)) :
    ∃ kept, kept.Sublist words ∧ Derived finished frames' marks' kept := by
  rcases Mark.exists_sublist_of_fits ((List.Sublist.refl _).append sublist)
    derived.fits with
    ⟨kept, fewer, fits⟩
  exact ⟨kept, fewer, derived.finishedValid,
    fun frame member => derived.framesValid frame (within frame member),
    fun word member => derived.spelled word (fewer.subset member), fits⟩

def names (elements : List Expression) : List Expression :=
  (elements.filterMap Expression.asIdentifier?).map Expression.identifier

private theorem sublist_marksAll_names (elements : List Expression) :
    (marksAll (names elements)).Sublist (marksAll elements) := by
  induction elements with
  | nil => exact .slnil
  | cons element rest induction =>
      have later : (marksAll (names rest)).Sublist (marksAll (element :: rest)) :=
        induction.trans (List.sublist_append_right _ _)
      cases element with
      | identifier name => exact induction.cons_cons _
      | number token value => exact later
      | string token value => exact later
      | array opening elements => exact later
      | call opening function arguments => exact later
      | function opening name parameters body => exact later

private theorem allValid_names {elements : List Expression}
    (allValid : AllValid elements) : AllValid (names elements) := by
  induction elements with
  | nil => trivial
  | cons element rest induction =>
      rcases allValid with ⟨first, later⟩
      cases element with
      | identifier name => exact ⟨first, induction later⟩
      | number token value => exact induction later
      | string token value => exact induction later
      | array opening elements => exact induction later
      | call opening function arguments => exact induction later
      | function opening name parameters body => exact induction later

/-! ## What is salvaged -/

def Mode.Opens : Mode → Prop
  | expression | skip .. => True
  | head opening | name opening => opening.kind = .leftRound

/-- Some of the words are the written form of what is finished and of what is open. -/
structure State.Salvages (words : List Token) (state : State) : Prop where
  opens : state.mode.Opens
  derived : ∃ kept, kept.Sublist words ∧
    Derived state.finished state.frames state.mode.marks kept

namespace State

variable {finished : Array Expression} {frames : List Frame} {marks : List Mark}
  {mode : Mode} {words : List Token} {token : Token}

theorem Salvages.of_sublist {state : State} {more : List Token}
    (salvages : state.Salvages words) (sublist : words.Sublist more) :
    state.Salvages more := by
  rcases salvages with ⟨opens, kept, within, derived⟩
  exact ⟨opens, kept, within.trans sublist, derived⟩

theorem Derives.salvages {state : State} (derives : state.Derives words) :
    state.Salvages words := by
  refine ⟨?_, words, List.Sublist.refl words, derives.derived⟩
  have valid := derives.modeValid
  cases mode : state.mode with
  | expression => trivial
  | head opening => rwa [mode] at valid
  | name opening => rwa [mode] at valid
  | skip opening nested => trivial

private theorem salvages_skip (opening : Token) (nested : Nat)
    (derived : Derived finished frames marks words) :
    Salvages words ⟨finished, frames, .skip opening nested⟩ :=
  ⟨trivial,
    derived.thin (fun _ => id) (List.Sublist.append_left (List.nil_sublist marks) _)⟩

theorem salvages_deliver_none (first : Token)
    (derived : Derived finished frames marks words) :
    (deliver finished first none frames).1.Salvages words := by
  have forgotten : ∃ kept, kept.Sublist words ∧ Derived finished frames [] kept :=
    derived.thin (fun _ => id) (List.Sublist.append_left (List.nil_sublist marks) _)
  rcases frames with _ | ⟨frame, frames⟩
  · exact ⟨trivial, forgotten⟩
  cases frame with
  | sequence form opening items => exact ⟨trivial, forgotten⟩
  | declaration opening name =>
      rcases forgotten with ⟨kept, within, derived⟩
      exact (salvages_skip opening 0 derived.closeFrame).of_sublist within

private theorem salvages_parameters {opening name bracket : Token}
    {elements : List Expression} (first : Token) (derived : Derived finished frames
      (Frame.marks (.declaration opening name) ++
        (Expression.array bracket elements).marks) words)
    (frameValid : Frame.Valid (.declaration opening name))
    (valid : (Expression.array bracket elements).Valid) :
    (deliver finished first (some (.array bracket elements))
      (.declaration opening name :: frames)).1.Salvages words := by
  have fewer : (Expression.array bracket (names elements)).marks.Sublist
      (Expression.array bracket elements).marks :=
    ((sublist_marksAll_names elements).append_right _).cons_cons _
  rcases derived.thin (fun _ => id) ((fewer.append_left _).append_left _) with
    ⟨kept, within, thinned⟩
  -- The names alone would have been delivered without a report, and to the same effect.
  have same : deliver finished first (some (.array bracket (names elements)))
      (.declaration opening name :: frames) =
        ((deliver finished first (some (.array bracket elements))
          (.declaration opening name :: frames)).1, []) :=
            deliver_parameters bracket opening name _
  have derives :=
    derives_parameters first thinned frameValid ⟨valid.1, allValid_names valid.2⟩
    (congrArg Prod.snd same)
  rw [same] at derives
  exact derives.salvages.of_sublist within

private theorem salvages_deliver {expression : Expression} (first : Token)
    (derived : Derived finished frames expression.marks words)
    (valid : expression.Valid) :
    (deliver finished first (some expression) frames).1.Salvages words := by
  rcases frames with _ | ⟨frame, frames⟩
  · exact (derives_deliver first derived valid rfl).salvages
  cases frame with
  | sequence form opening items =>
      exact (derives_deliver first derived valid rfl).salvages
  | declaration opening name =>
      have frameValid := derived.framesValid _ List.mem_cons_self
      have closed := derived.closeFrame
      cases expression with
      | array bracket elements => exact salvages_parameters first closed frameValid valid
      | number token value => exact salvages_skip opening 0 closed
      | string token value => exact salvages_skip opening 0 closed
      | identifier name => exact salvages_skip opening 0 closed
      | call bracket function arguments => exact salvages_skip opening 0 closed
      | function bracket name parameters body => exact salvages_skip opening 0 closed

private theorem salvages_passOver (opening : Token) (nested : Nat)
    (derived : Derived finished frames marks words) :
    (passOver finished frames opening nested token).1.Salvages words := by
  rcases passOver_cases finished frames token opening nested with
    ⟨nested', passed⟩ | ⟨-, given⟩
  · rw [passed]
    exact salvages_skip opening nested' derived
  · rw [given]
    exact salvages_deliver_none opening derived

private theorem valid_of_leaf? {expression : Expression}
    (leaf : token.leaf? = some expression) :
    expression.Valid ∧ expression.marks = [.kept token] := by
  unfold Token.leaf? at leaf
  split at leaf
  case h_1 kind => cases leaf; exact ⟨⟨kind, rfl⟩, rfl⟩
  case h_2 kind => cases leaf; exact ⟨⟨kind, rfl⟩, rfl⟩
  case h_3 kind => cases leaf; exact ⟨⟨kind, rfl⟩, rfl⟩
  case h_4 => cases leaf

theorem Transition.salvages {outcome : State × List Diagnostic}
    (transition : Transition finished token frames mode outcome)
    (derived : Derived finished frames mode.marks words) (opens : mode.Opens)
    (spelled : token.IsSpelled) (more : token.kind ≠ .endOfInput) :
    outcome.1.Salvages (words ++ [token]) := by
  have fewer : words.Sublist (words ++ [token]) := List.sublist_append_left words [token]
  have all : (words ++ [token]).Sublist (words ++ [token]) := List.Sublist.refl _
  cases transition with
  | leaf reads =>
      rcases valid_of_leaf? reads with ⟨valid, marks⟩
      apply salvages_deliver token _ valid
      rw [marks]
      exact derived.read spelled rfl
  | array kind =>
      exact ⟨trivial, _, all,
        Derived.openFrame (derived.read spelled rfl) ⟨kind, trivial⟩⟩
  | round kind => exact ⟨kind, _, all, derived.read spelled rfl⟩
  | @close _ form opening items closes =>
      have frameValid := derived.framesValid _ List.mem_cons_self
      refine salvages_deliver opening ?_ (Form.valid_build frameValid.1 frameValid.2)
      rw [Form.marks_build, ← List.append_assoc]
      have closed := derived.closeFrame
      rw [Mode.marks, List.append_nil] at closed
      exact closed.read spelled (Form.fits_closingMark closes spelled)
  | missing => exact (salvages_deliver_none _ derived.closeFrame).of_sublist fewer
  | stray => exact (salvages_deliver_none _ derived).of_sublist fewer
  | keyword keyword => exact ⟨opens, _, all, derived.read spelled keyword⟩
  | call other called =>
      have heads : token.HeadsCall :=
        called.elim (fun named => .inr ⟨named, fun text => other ⟨named, text⟩⟩) .inl
      exact ⟨trivial, _, all,
        Derived.openFrame (derived.read spelled rfl) ⟨⟨opens, heads⟩, trivial⟩⟩
  | name named =>
      exact ⟨trivial, _, all,
        Derived.openFrame (derived.read spelled rfl) ⟨opens, more, named⟩⟩
  | reject => exact (salvages_passOver _ 0 derived).of_sublist fewer
  | pass => exact (salvages_passOver _ _ derived).of_sublist fewer

private theorem salvages_step {state : State} (salvages : state.Salvages words)
    (spelled : token.IsSpelled) (more : token.kind ≠ .endOfInput) :
    (state.step token).1.Salvages (words ++ [token]) := by
  rcases state with ⟨finished, frames, mode⟩
  rcases salvages with ⟨opens, kept, within, derived⟩
  have transition := transition_step finished frames token mode
  exact (transition.salvages derived opens spelled more).of_sublist
    (within.append_right [token])

private theorem salvages_readAll {state : State} {more : List Token}
    (salvages : state.Salvages words) (spelled : ∀ word ∈ more, word.IsSpelled)
    (words_ne : ∀ word ∈ more, word.kind ≠ .endOfInput) :
    (state.readAll more).1.Salvages (words ++ more) := by
  induction more generalizing state words with
  | nil => simpa [readAll] using salvages
  | cons word rest induction =>
      rcases List.forall_mem_cons.mp spelled with ⟨wordSpelled, restSpelled⟩
      rcases List.forall_mem_cons.mp words_ne with ⟨word_ne, rest_ne⟩
      have later :=
        induction (salvages_step salvages wordSpelled word_ne) restSpelled rest_ne
      simpa [readAll] using later

end State

private theorem filter_mem_of_sublist {kept words : List Token}
    (within : kept.Sublist words) (nodup : words.Nodup) :
    words.filter (fun word => word ∈ kept) = kept := by
  have all : kept.filter (fun word => word ∈ kept) = kept :=
    List.filter_eq_self.mpr fun _ member => decide_eq_true member
  have atLeast := within.filter fun word => decide (word ∈ kept)
  rw [all] at atLeast
  have atMost : (words.filter fun word => word ∈ kept).length ≤ kept.length := by
    refine (List.subperm_of_subset (nodup.filter _) fun word member => ?_).length_le
    simpa using (List.mem_filter.mp member).2
  exact (atLeast.eq_of_length_le atMost).symm

namespace Reading

theorem exists_writtenAs {words : List Token} (position : Position)
    (spelled : ∀ word ∈ words, word.IsSpelled)
    (words_ne : ∀ word ∈ words, word.kind ≠ .endOfInput) :
    (ofWords words position).program.Valid ∧
      ∃ kept, kept.Sublist words ∧ (ofWords words position).program.WrittenAs kept := by
  have start : State.initial.Derives [] :=
    ⟨⟨trivial, fun _ member => (List.not_mem_nil member).elim,
      fun _ member => (List.not_mem_nil member).elim, .nil⟩, trivial⟩
  have salvages := State.salvages_readAll start.salvages spelled words_ne
  rcases salvages.derived with ⟨all, within, derived⟩
  rcases derived.thin (fun _ member => (List.not_mem_nil member).elim)
    (List.nil_sublist _) with
    ⟨kept, fewer, finished⟩
  simp only [Program.Valid, Program.WrittenAs, program_ofWords]
  refine ⟨derived.finishedValid, kept, fewer.trans within, ?_⟩
  simpa [Frame.marksAll] using finished.fits

/-- Whatever is wrong with a text, its program is made of words of it. -/
theorem madeOf_ofText (source : String) :
    ∀ expression ∈ (ofText source).program.expressions,
      expression.MadeOf (Cursor.ofString source).words := by
  intro expression member
  rw [ofText_eq_ofWords] at member
  rcases exists_writtenAs (Cursor.ofString source).exhausted.position
    (fun word (listed : word ∈ (Cursor.ofString source).words) =>
      Cursor.isSpelled_of_mem_words listed)
    (fun _ => Cursor.kind_ne_endOfInput_of_mem_words) with ⟨valid, kept, within, written⟩
  refine ⟨allValid_iff.mp valid expression member, fun token known => ?_⟩
  exact (written.sublist_tokens.trans within).subset
    (mem_tokensAll.mpr ⟨expression, member, known⟩)

/-- A program can be had from a text by blanking some of its words. -/
structure Recovers (source : String) (program : Program) : Prop where
  valid : program.Valid
  /-- The tokens of the program are tokens of the text, in their order and in their
  places. -/
  tokens : program.tokens.Sublist (Cursor.ofString source).tokens
  /-- No token is used twice. -/
  nodup : program.tokens.Nodup
  /-- Of the words of the text, each is either kept or blanked. What is kept reads as the
  program. -/
  blanked : ∃ (cut : Tokenization source.toList) (keeps : Token → Bool),
    List.Forall₂ Blanked source.toList (cut.blanked keeps) ∧
      (ofText (String.ofList (cut.blanked keeps))).flawless = .ok program

/-- Every text, however malformed, reads as what is left of it when some of its words are
blanked. -/
theorem recovers_ofText (source : String) : Recovers source (ofText source).program := by
  rw [ofText_eq_ofWords]
  rcases exists_writtenAs (Cursor.ofString source).exhausted.position
    (fun word (member : word ∈ (Cursor.ofString source).words) =>
      Cursor.isSpelled_of_mem_words member)
    (fun _ => Cursor.kind_ne_endOfInput_of_mem_words) with ⟨valid, kept, within, written⟩
  have nodup := (Cursor.ofString source).nodup_words
  have stored := written.sublist_tokens.trans within
  rcases Tokenization.exists_tokenization source.toList with ⟨cut⟩
  refine ⟨valid, ?_, nodup.sublist stored, cut, fun word => word ∈ kept,
    cut.forall₂_blanked _, ?_⟩
  · rw [Cursor.tokens_eq_words_append]
    exact stored.trans (List.sublist_append_left _ _)
  · have words :
        (Cursor.ofString (String.ofList (cut.blanked fun word => word ∈ kept))).words =
          kept := by
      rw [Cursor.ofString, String.toList_ofList, cut.words_blanked]
      exact filter_mem_of_sublist within nodup
    rw [flawless_eq_ok, ofText_eq_ofWords, words, ofWords_of_writtenAs _ valid written]
    exact ⟨rfl, rfl⟩

end Reading

end LispFront
