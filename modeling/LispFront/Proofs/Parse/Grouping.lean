import LispFront.Proofs.Parse.Ending
import LispFront.Proofs.Parse.Passage
import LispFront.Proofs.Parse.Step
import LispFront.Proofs.Syntax.Nesting
import LispFront.Proofs.Token.Tokenization

/-! # Reading items

Where brackets are well nested, whatever is wrong with a form stays within it: each item
is read to its end and no further, gives one result, and reports the same wherever it
stands (`Item.reads`). A text is read item by item (`Reading.readAll_items`). -/

namespace LispFront

/-- The item is read from its first word to its last, and wherever it stands it gives the
same result and the same reports. -/
def Item.Reads (item : Item) : Prop :=
  ∃ result reports, ∀ finished frames,
    State.Spans finished frames item.first item.later result reports

namespace State

variable {finished : Array Expression} {frames : List Frame}
  {opening closing name token : Token} {items : List Item}

/-! ## Passing over -/

theorem step_skip (nested : Nat) (left : token.kind ≠ .leftRound)
    (right : token.kind ≠ .rightRound) :
    step ⟨finished, frames, .skip opening nested⟩ token =
      (⟨finished, frames, .skip opening nested⟩, []) := by
  rcases token with ⟨kind, text, position⟩
  cases kind with
  | leftRound => exact (left rfl).elim
  | rightRound => exact (right rfl).elim
  | _ => rfl

theorem step_skip_leftRound (nested : Nat) (opens : token.kind = .leftRound) :
    step ⟨finished, frames, .skip opening nested⟩ token =
      (⟨finished, frames, .skip opening (nested + 1)⟩, []) := by
  simp only [step, passOver, opens]

theorem step_skip_rightRound (nested : Nat) (closes : token.kind = .rightRound) :
    step ⟨finished, frames, .skip opening (nested + 1)⟩ token =
      (⟨finished, frames, .skip opening nested⟩, []) := by
  simp only [step, passOver, closes]

theorem step_skip_last (closes : token.kind = .rightRound) :
    step ⟨finished, frames, .skip opening 0⟩ token =
      deliver finished opening none frames := by
  simp only [step, passOver, closes]

theorem inside_skip (nested : Nat) :
    Inside finished frames ⟨finished, frames, .skip opening nested⟩ :=
  inside_of_mode (by simp)

private theorem passage_skip_items
    (each : ∀ item ∈ items, ∀ nested,
      Passage finished frames ⟨finished, frames, .skip opening nested⟩ item.words
        (⟨finished, frames, .skip opening nested⟩, []))
    (nested : Nat) :
    Passage finished frames ⟨finished, frames, .skip opening nested⟩ (Item.wordsAll items)
      (⟨finished, frames, .skip opening nested⟩, []) := by
  induction items with
  | nil =>
      rw [Item.wordsAll]
      exact .nil _
  | cons item items induction =>
      rcases List.forall_mem_cons.mp each with ⟨first, rest⟩
      rw [Item.wordsAll_cons]
      exact (first nested).append_of_silent (induction rest)

private theorem passage_skip_item (item : Item) (nested : Nat) :
    Passage finished frames ⟨finished, frames, .skip opening nested⟩ item.words
      (⟨finished, frames, .skip opening nested⟩, []) := by
  induction item using Item.induction generalizing nested with
  | single word plain =>
      apply Passage.last (inside_skip nested)
      exact step_skip nested (TokenKind.ne_of_nests plain rfl)
        (TokenKind.ne_of_nests plain rfl)
  | group bracket first last opens closes inner induction =>
      cases bracket with
      | round =>
          apply Passage.cons_of_silent (inside_skip nested)
            (step_skip_leftRound nested opens)
          apply (passage_skip_items induction (nested + 1)).append_of_silent
          exact .last (inside_skip (nested + 1)) (step_skip_rightRound nested closes)
      | square =>
          have begun : first.kind = .leftSquare := opens
          have ended : last.kind = .rightSquare := closes
          apply Passage.cons_of_silent (inside_skip nested)
            (step_skip nested (by simp [Item.first, begun]) (by simp [Item.first, begun]))
          apply (passage_skip_items induction nested).append_of_silent
          exact .last (inside_skip nested)
            (step_skip nested (by simp [ended]) (by simp [ended]))

private theorem passage_skip (finished : Array Expression) (frames : List Frame)
    (opening : Token) (items : List Item) (closes : closing.kind = .rightRound) :
    Passage finished frames ⟨finished, frames, .skip opening 0⟩
      (Item.wordsAll items ++ [closing]) (deliver finished opening none frames) := by
  apply (passage_skip_items (fun item _ => passage_skip_item item) 0).append_of_silent
  exact .last (inside_skip 0) (step_skip_last closes)

private theorem passage_rejected {state : State} {words : List Token}
    (inside : state.Inside finished frames) (closes : closing.kind = .rightRound)
    (starts : Item.wordsAll items ++ [closing] = token :: words)
    (rejects : state.step token = rejectName finished frames opening token) :
    Passage finished frames state (Item.wordsAll items ++ [closing])
      (reportAll [.invalidFunctionName token.kind token.position]
        (deliver finished opening none frames)) := by
  have skips := passage_skip finished frames opening items closes
  rw [starts] at skips ⊢
  constructor
  · have skipped : step ⟨finished, frames, .skip opening 0⟩ token =
        passOver finished frames opening 0 token := rfl
    rw [readAll_cons, rejects, rejectName_eq, ← skipped, ← skips.read, readAll_cons]
    rfl
  · refine ⟨inside, ?_⟩
    rw [rejects, rejectName_eq]
    exact skips.inside.2

/-! ## Runs of items -/

theorem exists_step_eq_of_plain (plain : token.kind.nests = false) :
    ∃ result reports, ∀ finished frames, step ⟨finished, frames, .expression⟩ token =
      reportAll reports (deliver finished token result frames) := by
  have round : token.kind ≠ .rightRound := TokenKind.ne_of_nests plain rfl
  have square : token.kind ≠ .rightSquare := TokenKind.ne_of_nests plain rfl
  have read : ∃ result reports, ∀ finished frames, readExpression finished frames token =
      reportAll reports (deliver finished token result frames) := by
    rcases token with ⟨kind, text, position⟩
    cases kind with
    | leftRound => cases plain
    | leftSquare => cases plain
    | number => exact ⟨some _, [], fun _ _ => rfl⟩
    | string => exact ⟨some _, [], fun _ _ => rfl⟩
    | identifier => exact ⟨some _, [], fun _ _ => rfl⟩
    | _ => exact ⟨none, [_], fun _ _ => rfl⟩
  rcases read with ⟨result, reports, read⟩
  exact ⟨result, reports, fun finished frames =>
    (step_expression round square).trans (read finished frames)⟩

def dropped (first : Token) : Option Expression → List Diagnostic
  | some _ => []
  | none => [.elementDropped first]

theorem deliver_sequence (finished : Array Expression) (frames : List Frame) (form : Form)
    (opening first : Token) (elements : Array Expression) (result : Option Expression) :
    deliver finished first result (.sequence form opening elements :: frames) =
      (⟨finished, .sequence form opening (elements ++ result.toList) :: frames,
        .expression⟩, dropped first result) := by
  cases result with
  | none => simp [deliver, dropped]
  | some expression => simp [deliver, dropped]

theorem append_lists (elements : Array Expression) (first second : List Expression) :
    elements ++ first ++ second = elements ++ (first ++ second) := by
  apply Array.toList_inj.mp
  simp

private theorem passage_items (each : ∀ item ∈ items, item.Reads) :
    ∃ expressions : List Expression, ∃ reports, ∀ finished frames form opening elements,
      Passage finished frames
        ⟨finished, .sequence form opening elements :: frames, .expression⟩
        (Item.wordsAll items)
        (⟨finished, .sequence form opening (elements ++ expressions) :: frames,
          .expression⟩, reports) := by
  induction items with
  | nil =>
      refine ⟨[], [], fun finished frames form opening elements => ?_⟩
      have unchanged : elements ++ ([] : List Expression) = elements := by simp
      rw [Item.wordsAll, unchanged]
      exact .nil _
  | cons item items induction =>
      rcases List.forall_mem_cons.mp each with ⟨⟨result, reports, spans⟩, rest⟩
      rcases induction rest with ⟨expressions, later, passage⟩
      refine ⟨result.toList ++ expressions, reports ++ dropped item.first result ++ later,
        fun finished frames form opening elements => ?_⟩
      have first := (spans finished (.sequence form opening elements :: frames)).passage
      rw [deliver_sequence] at first
      have both :=
        first.append (passage finished frames form opening (elements ++ result.toList))
      rw [append_lists] at both
      rw [Item.wordsAll_cons]
      exact both

private theorem passage_sequence (form : Form) (opening : Token)
    (each : ∀ item ∈ items, item.Reads) (closes : closing.kind = form.closing) :
    ∃ result reports, ∀ finished frames,
      Passage finished frames
        ⟨finished, .sequence form opening #[] :: frames, .expression⟩
        (Item.wordsAll items ++ [closing])
        (reportAll reports (deliver finished opening result frames)) := by
  rcases passage_items each with ⟨expressions, reports, passage⟩
  refine ⟨some (form.build opening expressions), reports, fun finished frames => ?_⟩
  apply (passage finished frames form opening #[]).append
  apply Passage.last (inside_of_frame _ _)
  have elements : ((#[] : Array Expression) ++ expressions).toList = expressions := by
    simp
  rw [step_closing closes, elements]

/-! ## Round forms -/

theorem nests_eq_false_of_called
    (called : token.kind = .identifier ∨ token.isOperator = true) :
    token.kind.nests = false := by
  rcases token with ⟨kind, text, position⟩
  cases kind <;> first | rfl | simp [Token.isOperator, TokenKind.isOperator] at called

theorem deliver_declaration (opening name first : Token) (result : Option Expression) :
    ∃ reports, (∃ parameters, ∀ finished frames,
        deliver finished first result (.declaration opening name :: frames) =
          (⟨finished, .sequence (.body name parameters) opening #[] :: frames,
            .expression⟩, reports)) ∨
      ∀ finished frames,
        deliver finished first result (.declaration opening name :: frames) =
          (⟨finished, frames, .skip opening 0⟩, reports) := by
  rcases result with _ | expression
  · exact ⟨_, .inr fun _ _ => rfl⟩
  cases expression with
  | array bracket elements => exact ⟨_, .inl ⟨_, fun _ _ => rfl⟩⟩
  | _ => exact ⟨_, .inr fun _ _ => rfl⟩

private theorem passage_parameters (opening name : Token)
    (each : ∀ item ∈ items, item.Reads) (closes : closing.kind = .rightRound) :
    ∃ result reports, ∀ finished frames,
      Passage finished frames ⟨finished, .declaration opening name :: frames, .expression⟩
        (Item.wordsAll items ++ [closing])
        (reportAll reports (deliver finished opening result frames)) := by
  cases items with
  | nil =>
      refine ⟨none, [.expectedParameters closing.kind.spelling closing.position],
        fun finished frames => ?_⟩
      rw [Item.wordsAll]
      exact .last (inside_of_frame _ _) (readPart_missing closes)
  | cons item items =>
      rcases List.forall_mem_cons.mp each with ⟨⟨result, reports, spans⟩, rest⟩
      simp only [Item.wordsAll_cons, List.append_assoc]
      -- The item is the array of the parameters, or else the declaration is given up
      -- behind it.
      rcases deliver_declaration opening name item.first result with
        ⟨found, ⟨parameters, delivered⟩ | delivered⟩
      · rcases passage_sequence (.body name parameters) opening rest closes with
          ⟨built, later, passage⟩
        refine ⟨built, reports ++ found ++ later, fun finished frames => ?_⟩
        have first := (spans finished (.declaration opening name :: frames)).passage
        rw [delivered] at first
        rw [reportAll_append]
        exact first.append (passage finished frames)
      · refine ⟨none, reports ++ found, fun finished frames => ?_⟩
        have first := (spans finished (.declaration opening name :: frames)).passage
        rw [delivered] at first
        exact first.append (passage_skip finished frames opening items closes)

private theorem passage_name (opening : Token) (each : ∀ item ∈ items, item.Reads)
    (closes : closing.kind = .rightRound) :
    ∃ result reports, ∀ finished frames,
      Passage finished frames ⟨finished, frames, .name opening⟩
        (Item.wordsAll items ++ [closing])
        (reportAll reports (deliver finished opening result frames)) := by
  rcases starts : Item.wordsAll items ++ [closing] with _ | ⟨token, words⟩
  · simp at starts
  rw [← starts]
  by_cases bracket : token.kind.isBracket = true
  · exact ⟨none, _, fun finished frames =>
      passage_rejected (inside_of_mode (by simp)) closes starts
        (readName_rejected bracket)⟩
  rcases Item.exists_rest_of_plain starts (by rw [closes]; rfl)
    (TokenKind.nests_eq_false_of_isBracket (by simpa using bracket)) with
      ⟨rest, within, rfl⟩
  rcases passage_parameters opening token
    (fun item member => each item (within item member)) closes with
    ⟨result, reports, passage⟩
  refine ⟨result, reports, fun finished frames => ?_⟩
  rw [starts]
  exact .cons_of_silent (inside_of_mode (by simp)) (readName_accepted bracket)
    (passage finished frames)

private theorem passage_head (opening : Token) (each : ∀ item ∈ items, item.Reads)
    (closes : closing.kind = .rightRound) :
    ∃ result reports, ∀ finished frames,
      Passage finished frames ⟨finished, frames, .head opening⟩
        (Item.wordsAll items ++ [closing])
        (reportAll reports (deliver finished opening result frames)) := by
  rcases starts : Item.wordsAll items ++ [closing] with _ | ⟨token, words⟩
  · simp at starts
  rw [← starts]
  by_cases called : token.kind = .identifier ∨ token.isOperator = true
  · have plain : token.kind.nests = false := nests_eq_false_of_called called
    rcases Item.exists_rest_of_plain starts (by rw [closes]; rfl) plain with
      ⟨rest, within, rfl⟩
    have eachRest : ∀ item ∈ rest, item.Reads :=
      fun item member => each item (within item member)
    rw [starts]
    by_cases keyword : token.kind = .identifier ∧ token.text = functionKeyword
    · rcases passage_name opening eachRest closes with ⟨result, reports, passage⟩
      exact ⟨result, reports, fun finished frames =>
        .cons_of_silent (inside_of_mode (by simp)) (readHead_keyword keyword)
          (passage finished frames)⟩
    · rcases passage_sequence (.call token) opening eachRest closes with
        ⟨result, reports, passage⟩
      exact ⟨result, reports, fun finished frames =>
        .cons_of_silent (inside_of_mode (by simp)) (readHead_called keyword called)
          (passage finished frames)⟩
  · exact ⟨none, _, fun finished frames =>
      passage_rejected (inside_of_mode (by simp)) closes starts
        (readHead_rejected called)⟩

end State

/-! ## Items -/

namespace Item

open State

private theorem reads_single {word : Token} (plain : word.kind.nests = false) :
    (single word plain).Reads := by
  rcases exists_step_eq_of_plain plain with ⟨result, reports, read⟩
  refine ⟨result, reports, fun finished frames => spans_of_read ?_ trivial⟩
  rw [later, readAll_singleton]
  exact read finished frames

private theorem reads_group {bracket : Bracket} {opening closing : Token}
    {inner : List Item} (opens : opening.kind = bracket.opening)
    (closes : closing.kind = bracket.closing) (each : ∀ item ∈ inner, item.Reads) :
    (group bracket opening closing opens closes inner).Reads := by
  cases bracket with
  | round =>
      rcases passage_head opening each closes with ⟨result, reports, passage⟩
      exact ⟨result, reports, fun finished frames =>
        spans_of_passage (step_leftRound opens) (passage finished frames)⟩
  | square =>
      rcases passage_sequence .array opening each closes with ⟨result, reports, passage⟩
      exact ⟨result, reports, fun finished frames =>
        spans_of_passage (step_leftSquare opens) (passage finished frames)⟩

/-- Every item is read alike wherever it stands, whatever is wrong inside. -/
theorem reads (item : Item) : item.Reads := by
  induction item using Item.induction with
  | single word plain => exact reads_single plain
  | group bracket opening closing opens closes inner induction =>
      exact reads_group opens closes induction

end Item

namespace Reading

open State

/-! ## Whole texts -/

theorem exists_result (item : Item) : ∃ result reports,
    (∀ position, ofWords item.words position = ⟨⟨result.toList⟩, reports⟩) ∧
    ∀ finished frames, readAll ⟨finished, frames, .expression⟩ item.words =
      reportAll reports (deliver finished item.first result frames) := by
  rcases item.reads with ⟨result, reports, spans⟩
  refine ⟨result, reports, fun position => ?_,
    fun finished frames => (spans finished frames).read⟩
  have read : readAll ⟨#[], [], .expression⟩ item.words =
      (⟨(#[] : Array Expression) ++ result.toList, [], .expression⟩, reports) := by
    rw [Item.words, (spans #[] []).read]
    cases result <;> simp [deliver, reportAll]
  rw [ofWords, initial, read, close_of_isIdle position rfl]
  simp

theorem readAll_item (item : Item) (position : Position) (finished : Array Expression) :
    readAll ⟨finished, [], .expression⟩ item.words =
        (⟨finished ++ (ofWords item.words position).program.expressions, [], .expression⟩,
          (ofWords item.words position).diagnostics) ∧
      (ofWords item.words position).program.expressions.length ≤ 1 := by
  rcases exists_result item with ⟨result, reports, alone, read⟩
  rw [alone, read]
  cases result <;> simp [deliver, reportAll]

theorem readAll_items (items : List Item) (position : Position)
    (finished : Array Expression) :
    readAll ⟨finished, [], .expression⟩ (Item.wordsAll items) =
      (⟨finished ++ items.flatMap fun item =>
          (ofWords item.words position).program.expressions, [], .expression⟩,
        items.flatMap fun item => (ofWords item.words position).diagnostics) := by
  induction items generalizing finished with
  | nil => simp [Item.wordsAll, readAll]
  | cons item items induction =>
      rw [Item.wordsAll_cons, readAll_append,
        (readAll_item item position finished).1, induction, append_lists]
      rfl

/-- A text is read item by item, and nothing that is wrong with one item shows in
another. -/
structure ItemByItem (source : String) : Prop where
  /-- Where an expression begins with a bracket, it ends with the bracket that closes the
  group. A round form without a head is reported once. -/
  groups : ∀ before opening after finished frames bracket,
    (Cursor.ofString source).words = before ++ opening :: after →
    (initial.readAll before).1 = ⟨finished, frames, .expression⟩ →
    opening.kind = Bracket.opening bracket →
    ∃ inner closing rest result reports,
      after = Item.wordsAll inner ++ closing :: rest ∧ closing.kind = bracket.closing ∧
      Spans finished frames opening (Item.wordsAll inner ++ [closing]) result reports ∧
      (bracket = .round → ∀ head ∈ (Item.wordsAll inner ++ [closing]).head?,
        ¬(head.kind = .identifier ∨ head.isOperator = true) →
          result = none ∧ reports = [.invalidFunctionName head.kind head.position])
  /-- The end of the input is not met inside of anything. -/
  whole : ∀ diagnostic ∈ (ofText source).diagnostics, diagnostic.meetsEnd = false
  /-- What the items of the text give, each alone, is what the text gives. -/
  items : ∃ items, Item.wordsAll items = (Cursor.ofString source).words ∧ ∀ position,
    (ofText source).program.expressions =
      items.flatMap (fun item => (ofWords item.words position).program.expressions) ∧
    (ofText source).diagnostics =
      items.flatMap (fun item => (ofWords item.words position).diagnostics) ∧
    ∀ item ∈ items, (ofWords item.words position).program.expressions.length ≤ 1

private theorem exists_spans_of_opening {opening closing : Token} {bracket : Bracket}
    (inner : List Item) (opens : opening.kind = bracket.opening)
    (closes : closing.kind = bracket.closing) :
    ∃ result reports,
      (∀ finished frames,
        Spans finished frames opening (Item.wordsAll inner ++ [closing]) result reports) ∧
      (bracket = .round → ∀ head ∈ (Item.wordsAll inner ++ [closing]).head?,
        ¬(head.kind = .identifier ∨ head.isOperator = true) →
          result = none ∧ reports = [.invalidFunctionName head.kind head.position]) := by
  rcases starts : Item.wordsAll inner ++ [closing] with _ | ⟨head, later⟩
  · simp at starts
  by_cases rejected : bracket = .round ∧
    ¬(head.kind = .identifier ∨ head.isOperator = true)
  · rcases rejected with ⟨rfl, rejected⟩
    refine ⟨none, [.invalidFunctionName head.kind head.position],
      fun finished frames => ?_, ?_⟩
    · rw [← starts]
      exact spans_of_passage (step_leftRound opens)
        (passage_rejected (inside_of_mode (by simp)) closes starts
          (readHead_rejected rejected))
    · intro _ first member _
      cases Option.mem_some.mp member
      exact ⟨rfl, rfl⟩
  · rcases (Item.group bracket opening closing opens closes inner).reads with
      ⟨result, reports, spans⟩
    refine ⟨result, reports, fun finished frames => ?_, ?_⟩
    · rw [← starts]
      exact spans finished frames
    · intro round first member other
      cases Option.mem_some.mp member
      exact (rejected ⟨round, other⟩).elim

theorem itemByItem_of_wellNested (source : String)
    (nested : WellNested (Cursor.ofString source).words) : ItemByItem source := by
  rcases wellNested_iff_exists_items.mp nested with ⟨items, written⟩
  have read (position : Position) := readAll_items items position #[]
  simp only [written] at read
  have idle : (initial.readAll (Cursor.ofString source).words).1.isIdle = true := by
    rw [initial, read .origin]
    rfl
  constructor
  · intro before opening after finished frames bracket split _ opens
    rw [split] at nested
    rcases exists_closing_of_wellNested nested opens with
      ⟨inner, closing, rest, closes, remaining⟩
    rcases exists_spans_of_opening inner opens closes with
      ⟨result, reports, spans, reported⟩
    exact ⟨inner, closing, rest, result, reports, remaining, closes,
      spans finished frames, reported⟩
  · rw [ofText_eq_ofWords]
    exact (isIdle_iff_forall_meetsEnd _ fun _ =>
      Cursor.kind_ne_endOfInput_of_mem_words).mp idle
  · refine ⟨items, written, fun position => ?_⟩
    have whole : ofText source =
        ⟨⟨items.flatMap fun item => (ofWords item.words position).program.expressions⟩,
          items.flatMap fun item => (ofWords item.words position).diagnostics⟩ := by
      rw [ofText_eq_ofWords, ofWords, initial, read position, close_of_isIdle _ rfl]
      simp
    rw [whole]
    exact ⟨rfl, rfl, fun item _ => (readAll_item item position #[]).2⟩

theorem itemByItem_of_malformed :
    WellNested (Cursor.ofString "(1 (x) [2]) : [a () (fn f (g) x)]").words ∧
      ItemByItem "(1 (x) [2]) : [a () (fn f (g) x)]" := by
  have nested :
      WellNested (Cursor.ofString "(1 (x) [2]) : [a () (fn f (g) x)]").words := by
    decide +kernel
  exact ⟨nested, itemByItem_of_wellNested _ nested⟩

end Reading

end LispFront
