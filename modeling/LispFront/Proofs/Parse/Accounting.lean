import LispFront.Proofs.Parse.Matching
import LispFront.Proofs.Parse.Openings
import LispFront.Proofs.Token.Placement

/-! # Accounting for items

Of the items of a run each is accounted for once: it gives an expression, or it is
reported as dropped (`Reading.accounted_of_wellNested`). The names among the elements of a
parameter list are the parameters, and all others are reported. -/

namespace LispFront

def Item.expressions (item : Item) : List Expression :=
  (Reading.ofWords item.words .origin).program.expressions

/-- The elements of a parameter list one by one: a name becomes a parameter, and anything
else is reported. -/
inductive Sifted : List Expression → List Identifier → List Diagnostic → Prop
  | nil : Sifted [] [] []
  | name {elements : List Expression} {parameters : List Identifier}
      {problems : List Diagnostic} (name : Identifier)
      (later : Sifted elements parameters problems) :
      Sifted (.identifier name :: elements) (name :: parameters) problems
  | other {element : Expression} {elements : List Expression}
      {parameters : List Identifier} {problems : List Diagnostic}
      (other : ∀ name, element ≠ .identifier name)
      (later : Sifted elements parameters problems) :
      Sifted (element :: elements) parameters
        (.expectedIdentifier element.render element.token.position :: problems)

private theorem sifted (elements : List Expression) :
    Sifted elements (elements.filterMap Expression.asIdentifier?)
      (elements.filterMap parameterProblem?) := by
  induction elements with
  | nil => exact .nil
  | cons element elements induction =>
      cases element with
      | identifier name => exact .name name induction
      | _ => exact .other (by simp) induction

namespace State

variable {finished : Array Expression} {frames : List Frame} {form : Form}
  {opening : Token} {elements : Array Expression}

/-! ## Items of a run -/

theorem readAll_item_of_sequence (item : Item) (finished : Array Expression) (form : Form)
    (opening : Token) (elements : Array Expression) (frames : List Frame) :
    ∃ loss,
      readAll ⟨finished, .sequence form opening elements :: frames, .expression⟩
          item.words =
        (⟨finished, .sequence form opening (elements ++ item.expressions) :: frames,
          .expression⟩, (Reading.ofWords item.words .origin).diagnostics ++ loss) ∧
      (item.expressions.length = 1 ∧ loss = [] ∨
        item.expressions.length = 0 ∧ loss = [.elementDropped item.first]) := by
  rcases Reading.exists_result item with ⟨result, reports, alone, read⟩
  rw [Item.expressions, alone, read, deliver_sequence]
  refine ⟨dropped item.first result, rfl, ?_⟩
  cases result with
  | none => exact .inr ⟨rfl, rfl⟩
  | some expression => exact .inl ⟨rfl, rfl⟩

private theorem readAll_items_of_sequence (items : List Item)
    (elements : Array Expression) :
    (readAll ⟨finished, .sequence form opening elements :: frames, .expression⟩
      (Item.wordsAll items)).1 =
        ⟨finished,
          .sequence form opening (elements ++ items.flatMap Item.expressions) :: frames,
          .expression⟩ := by
  induction items generalizing elements with
  | nil => simp [Item.wordsAll, readAll]
  | cons item items induction =>
      rcases readAll_item_of_sequence item finished form opening elements frames with
        ⟨loss, read, -⟩
      rw [Item.wordsAll_cons, readAll_append, read, induction, append_lists,
        List.flatMap_cons]

/-! ## Losses -/

theorem mem_of_elementDropped_readAll_cons {state : State} {word first : Token}
    {words : List Token} (nothing : state.openings = [])
    (member : .elementDropped first ∈ (state.readAll (word :: words)).2) :
    first ∈ words := by
  rcases List.mem_append.mp member with member | member
  · have moves := transition_step state.finished state.frames word state.mode
    have within := moves.mem_dropLast_of_elementDropped member
    change first ∈ (word :: state.openings).dropLast at within
    rw [nothing] at within
    cases within
  · rcases mem_of_elementDropped_readAll member with later | within
    · exact later
    · rcases openings_step state word with fewer | ⟨-, pushed⟩
      · rw [nothing, List.suffix_nil] at fewer
        rw [fewer] at within
        cases within
      · rw [pushed, nothing] at within
        cases within

theorem not_elementDropped_first (item : Item) (nodup : item.words.Nodup) :
    .elementDropped item.first ∉ (Reading.ofWords item.words .origin).diagnostics := by
  intro member
  rcases Reading.exists_result item with ⟨result, reports, alone, read⟩
  have delivered : (initial.readAll item.words).2 = reports := by
    rw [initial, read]
    cases result <;> simp [deliver, reportAll]
  rw [alone, ← delivered, Item.words] at member
  exact (List.nodup_cons.mp nodup).1 (mem_of_elementDropped_readAll_cons rfl member)

theorem count_elementDropped {before after : List Token} {item : Item}
    (nodup : (before ++ (item.words ++ after)).Nodup)
    (read : (initial.readAll before).1 =
      ⟨finished, .sequence form opening elements :: frames, .expression⟩) :
    item.expressions.length +
      (initial.readAll (before ++ (item.words ++ after))).2.count
        (.elementDropped item.first) = 1 := by
  rcases List.nodup_append.mp nodup with ⟨-, nodupLater, apart⟩
  rcases List.nodup_append.mp nodupLater with ⟨nodupItem, -, apartLater⟩
  have notBefore : item.first ∉ before := fun member =>
    apart _ member _ (List.mem_append_left _ List.mem_cons_self) rfl
  have notAfter : item.first ∉ after :=
    fun member => apartLater _ List.mem_cons_self _ member rfl
  rcases readAll_item_of_sequence item finished form opening elements frames with
    ⟨loss, stepped, given⟩
  have earlier : .elementDropped item.first ∉ (initial.readAll before).2 := by
    intro member
    rcases mem_of_elementDropped_readAll member with member | within
    · exact notBefore member
    · cases within
  -- Once the item has been read, its bracket is open no more.
  have later : .elementDropped item.first ∉
      (readAll ⟨finished, .sequence form opening (elements ++ item.expressions) :: frames,
        .expression⟩ after).2 := by
    intro member
    rcases mem_of_elementDropped_readAll member with member | within
    · exact notAfter member
    · apply notBefore
      apply mem_words_of_mem_openings
      rw [read]
      exact (List.dropLast_sublist _).subset within
  rw [readAll_append, readAll_append, read, stepped, List.count_append, List.count_append,
    List.count_append, List.count_eq_zero_of_not_mem earlier,
    List.count_eq_zero_of_not_mem later,
    List.count_eq_zero_of_not_mem (not_elementDropped_first item nodupItem)]
  rcases given with ⟨one, rfl⟩ | ⟨none, rfl⟩
  · simp [one]
  · simp [none]

end State

namespace Reading

open State

/-- Each item of a run is accounted for once. -/
structure Accounted (source : String) : Prop where
  /-- Wherever a run goes on, what is left of it are items, of which each gives one
  expression or is reported as dropped once, and then the bracket that closes the run.
  Where a declaration takes the run as its parameters, each element is a parameter or
  reported once, and the body of the declaration comes next. -/
  items : ∀ before after finished form opening elements frames,
    (Cursor.ofString source).words = before ++ after →
    (initial.readAll before).1 =
      ⟨finished, .sequence form opening elements :: frames, .expression⟩ →
    ∃ items closing rest,
      after = Item.wordsAll items ++ closing :: rest ∧ closing.kind = form.closing ∧
      (∀ item ∈ items, item.expressions.length +
        (ofText source).diagnostics.count (.elementDropped item.first) = 1) ∧
      (initial.readAll (before ++ Item.wordsAll items)).1 =
        ⟨finished,
          .sequence form opening (elements ++ items.flatMap Item.expressions) :: frames,
          .expression⟩ ∧
      initial.readAll (before ++ Item.wordsAll items ++ [closing]) =
        reportAll (initial.readAll (before ++ Item.wordsAll items)).2
          (deliver finished opening
            (some
              (form.build opening (elements.toList ++ items.flatMap Item.expressions)))
              frames) ∧
      (form = .array → ∀ bracket name outer, frames = .declaration bracket name :: outer →
        ∃ parameters problems,
          Sifted (elements.toList ++ items.flatMap Item.expressions) parameters problems ∧
          initial.readAll (before ++ Item.wordsAll items ++ [closing]) =
            (⟨finished,
              .sequence (.body name parameters) bracket #[] :: outer, .expression⟩,
              (initial.readAll (before ++ Item.wordsAll items)).2 ++ problems))

theorem accounted_of_wellNested (source : String)
    (nested : WellNested (Cursor.ofString source).words) : Accounted source := by
  constructor
  intro before after finished form opening elements frames split read
  have diagnostics : (ofText source).diagnostics =
      (initial.readAll (Cursor.ofString source).words).2 := by
    rw [ofText_eq_ofWords, ofWords, close_of_isIdle _ (isIdle_of_wellNested nested)]
    exact List.append_nil _
  have nodup := (Cursor.ofString source).nodup_words
  rw [split] at nested nodup
  rcases exists_items_of_wellNested nested read with ⟨items, closing, rest, rfl, closes⟩
  have whole : (initial.readAll (before ++ Item.wordsAll items)).1 =
      ⟨finished,
        .sequence form opening (elements ++ items.flatMap Item.expressions) :: frames,
        .expression⟩ := by
    rw [readAll_append, read, readAll_items_of_sequence]
  have closed : initial.readAll (before ++ Item.wordsAll items ++ [closing]) =
      reportAll (initial.readAll (before ++ Item.wordsAll items)).2
        (deliver finished opening
          (some (form.build opening (elements.toList ++ items.flatMap Item.expressions)))
          frames) := by
    rw [readAll_append, whole, readAll_singleton, step_closing closes,
      Array.toList_appendList]
    rfl
  refine ⟨items, closing, rest, rfl, closes, fun item member => ?_, whole, closed, ?_⟩
  · -- In front of the item the run holds what the items before it have given.
    rcases List.append_of_mem member with ⟨front, back, rfl⟩
    have reached : (initial.readAll (before ++ Item.wordsAll front)).1 =
        ⟨finished,
          .sequence form opening (elements ++ front.flatMap Item.expressions) :: frames,
          .expression⟩ := by
      rw [readAll_append, read, readAll_items_of_sequence]
    have parted : before ++ (Item.wordsAll (front ++ item :: back) ++ closing :: rest) =
        before ++ Item.wordsAll front ++
          (item.words ++ (Item.wordsAll back ++ closing :: rest)) := by
      rw [Item.wordsAll_append, Item.wordsAll_cons]
      simp only [List.append_assoc]
    rw [diagnostics, split, parted]
    rw [parted] at nodup
    exact count_elementDropped nodup reached
  · rintro rfl bracket name outer rfl
    exact ⟨_, _, sifted _, closed⟩

theorem accounted_of_malformed :
    WellNested (Cursor.ofString "[(1 [2]) (fn f [x 3 () y] \x7d (g z))]").words ∧
      Accounted "[(1 [2]) (fn f [x 3 () y] \x7d (g z))]" := by
  have nested :
      WellNested (Cursor.ofString "[(1 [2]) (fn f [x 3 () y] \x7d (g z))]").words := by
    decide +kernel
  exact ⟨nested, accounted_of_wellNested _ nested⟩

end Reading

end LispFront
