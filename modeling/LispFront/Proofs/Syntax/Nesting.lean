import LispFront.Token.Basic

/-! # Nesting

Round and square brackets are well nested when every closing bracket matches the last one
that is still open, and none is left open. The words are then a row of items: groups
between two brackets that match, and words that are no such brackets
(`wellNested_iff_exists_items`). -/

namespace LispFront

inductive Bracket where
  | round
  | square
deriving DecidableEq

namespace Bracket

def opening : Bracket → TokenKind
  | round => .leftRound
  | square => .leftSquare

def closing : Bracket → TokenKind
  | round => .rightRound
  | square => .rightSquare

end Bracket

/-- Whether a token of this kind takes part in the nesting. -/
def TokenKind.nests : TokenKind → Bool
  | .leftRound | .rightRound | .leftSquare | .rightSquare => true
  | _ => false

theorem TokenKind.nests_eq_false_of_isBracket {kind : TokenKind}
    (curved : kind.isBracket = false) : kind.nests = false := by
  cases kind <;> first | rfl | cases curved

theorem TokenKind.ne_of_nests {kind other : TokenKind} (plain : kind.nests = false)
    (nests : other.nests = true) : kind ≠ other := by
  rintro rfl
  rw [plain] at nests
  cases nests

namespace Bracket

/-- The brackets that are open after a word, innermost first, unless it closes one that is
not. -/
def after? (unclosed : List Bracket) (word : Token) : Option (List Bracket) :=
  match word.kind, unclosed with
  | .leftRound, unclosed => some (round :: unclosed)
  | .leftSquare, unclosed => some (square :: unclosed)
  | .rightRound, round :: unclosed => some unclosed
  | .rightSquare, square :: unclosed => some unclosed
  | .rightRound, _ | .rightSquare, _ => none
  | _, unclosed => some unclosed

def afterAll? (unclosed : List Bracket) (words : List Token) : Option (List Bracket) :=
  words.foldlM after? unclosed

variable {bracket : Bracket} {unclosed open_ : List Bracket} {word : Token}

private theorem after?_opening (opens : word.kind = bracket.opening) :
    after? unclosed word = some (bracket :: unclosed) := by
  cases bracket <;> simp [after?, opens, opening]

private theorem after?_closing (closes : word.kind = bracket.closing) :
    after? (bracket :: unclosed) word = some unclosed := by
  cases bracket <;> simp [after?, closes, closing]

theorem after?_plain (plain : word.kind.nests = false) :
    after? unclosed word = some unclosed := by
  rcases word with ⟨kind, text, position⟩
  cases kind <;> first | rfl | cases plain

theorem after?_cases (reads : after? unclosed word = some open_) :
    (∃ bracket, word.kind = opening bracket ∧ open_ = bracket :: unclosed) ∨
    (∃ bracket, word.kind = closing bracket ∧ unclosed = bracket :: open_) ∨
    word.kind.nests = false ∧ open_ = unclosed := by
  rcases word with ⟨kind, text, position⟩
  cases kind with
  | leftRound => exact .inl ⟨round, rfl, (Option.some.inj reads).symm⟩
  | leftSquare => exact .inl ⟨square, rfl, (Option.some.inj reads).symm⟩
  | rightRound =>
      rcases unclosed with _ | ⟨bracket, unclosed⟩
      · cases reads
      · cases bracket with
        | round => exact .inr (.inl ⟨round, rfl, congrArg _ (Option.some.inj reads)⟩)
        | square => cases reads
  | rightSquare =>
      rcases unclosed with _ | ⟨bracket, unclosed⟩
      · cases reads
      · cases bracket with
        | round => cases reads
        | square => exact .inr (.inl ⟨square, rfl, congrArg _ (Option.some.inj reads)⟩)
  | _ => exact .inr (.inr ⟨rfl, (Option.some.inj reads).symm⟩)

theorem afterAll?_cons (unclosed : List Bracket) (word : Token) (words : List Token) :
    afterAll? unclosed (word :: words) =
      (after? unclosed word).bind fun open_ => afterAll? open_ words := rfl

theorem afterAll?_append (unclosed : List Bracket) (first second : List Token) :
    afterAll? unclosed (first ++ second) =
      (afterAll? unclosed first).bind fun open_ => afterAll? open_ second :=
  List.foldlM_append

end Bracket

def WellNested (words : List Token) : Prop :=
  Bracket.afterAll? [] words = some []

instance (words : List Token) : Decidable (WellNested words) :=
  inferInstanceAs (Decidable (_ = _))

/-! ## Items -/

/-- A word that does not nest, or all that stands from a bracket to the one that closes
it. -/
inductive Item where
  | single (word : Token) (plain : word.kind.nests = false)
  | group (bracket : Bracket) (opening closing : Token)
      (opens : opening.kind = bracket.opening)
      (closes : closing.kind = bracket.closing) (inner : List Item)

namespace Item

def first : Item → Token
  | single word _ => word
  | group _ opening .. => opening

mutual

def later : Item → List Token
  | single .. => []
  | group _ _ closing _ _ inner => wordsAll inner ++ [closing]

def wordsAll : List Item → List Token
  | [] => []
  | item :: items => item.first :: (item.later ++ wordsAll items)

end

def words (item : Item) : List Token :=
  item.first :: item.later

theorem wordsAll_cons (item : Item) (items : List Item) :
    wordsAll (item :: items) = item.words ++ wordsAll items := by
  rw [wordsAll]
  rfl

theorem wordsAll_append (first second : List Item) :
    wordsAll (first ++ second) = wordsAll first ++ wordsAll second := by
  induction first with
  | nil => rw [wordsAll, List.nil_append, List.nil_append]
  | cons item items induction =>
      rw [List.cons_append, wordsAll_cons, wordsAll_cons, induction, List.append_assoc]

theorem exists_rest_of_plain {items : List Item} {closing word : Token}
    {later : List Token} (starts : wordsAll items ++ [closing] = word :: later)
    (nests : closing.kind.nests = true) (plain : word.kind.nests = false) :
    ∃ rest, (∀ item ∈ rest, item ∈ items) ∧ later = wordsAll rest ++ [closing] := by
  rcases items with _ | ⟨item, rest⟩
  · rw [wordsAll] at starts
    rw [← (List.cons.inj starts).1, nests] at plain
    cases plain
  refine ⟨rest, fun selected member => List.mem_cons_of_mem _ member, ?_⟩
  rw [wordsAll] at starts
  rcases List.cons.inj starts with ⟨equal, tail⟩
  cases item with
  | single first _ => exact tail.symm
  | group bracket opening last opens closes inner =>
      have kind : word.kind = bracket.opening := by
        rw [← equal]
        exact opens
      rw [kind] at plain
      cases bracket <;> cases plain

mutual

theorem induction {motive : Item → Prop}
    (single : ∀ word plain, motive (single word plain))
      (group : ∀ bracket opening closing opens closes inner,
        (∀ item ∈ inner, motive item) →
          motive (group bracket opening closing opens closes inner)) : ∀ item, motive item
  | .single word plain => single word plain
  | .group bracket opening closing opens closes inner =>
      group bracket opening closing opens closes inner (inductionAll single group inner)

theorem inductionAll {motive : Item → Prop}
    (single : ∀ word plain, motive (.single word plain))
      (group : ∀ bracket opening closing opens closes inner,
        (∀ item ∈ inner, motive item) →
          motive (.group bracket opening closing opens closes inner)) :
    ∀ items : List Item, ∀ item ∈ items, motive item
  | [], _, member => by cases member
  | item :: items, selected, member =>
      List.forall_mem_cons.mpr
        ⟨induction single group item, inductionAll single group items⟩
        selected member

end

/-! ## Well nested words are items -/

def Closes : List Bracket → List Token → Prop
  | [], words => ∃ items, wordsAll items = words
  | bracket :: unclosed, words =>
      ∃ items closing after, closing.kind = bracket.closing ∧
        words = wordsAll items ++ closing :: after ∧ Closes unclosed after

private theorem closes_append (item : Item) {unclosed : List Bracket} {words : List Token}
    (closes : Closes unclosed words) : Closes unclosed (item.words ++ words) := by
  cases unclosed with
  | nil =>
      rcases closes with ⟨items, rfl⟩
      exact ⟨item :: items, wordsAll_cons item items⟩
  | cons bracket unclosed =>
      rcases closes with ⟨items, closing, after, kind, rfl, closes⟩
      refine ⟨item :: items, closing, after, kind, ?_, closes⟩
      rw [wordsAll_cons, List.append_assoc]

theorem closes_of_afterAll? {unclosed : List Bracket} {words : List Token}
    (closed : Bracket.afterAll? unclosed words = some []) : Closes unclosed words := by
  -- An opening bracket asks for one more row of items, which becomes the inside of a
  -- group.
  induction words generalizing unclosed with
  | nil =>
      cases closed
      exact ⟨[], by rw [wordsAll]⟩
  | cons word words induction =>
      rw [Bracket.afterAll?_cons, Option.bind_eq_some_iff] at closed
      rcases closed with ⟨open_, reads, closed⟩
      have closes := induction closed
      rcases Bracket.after?_cases reads with
        ⟨bracket, opens, rfl⟩ | ⟨bracket, kind, rfl⟩ | ⟨plain, rfl⟩
      · rcases closes with ⟨inner, closing, after, kind, rfl, closes⟩
        have grouped :=
          closes_append (.group bracket word closing opens kind inner) closes
        simpa [Item.words, first, later] using grouped
      · exact ⟨[], word, words, kind, by rw [wordsAll, List.nil_append], closes⟩
      · have counted := closes_append (.single word plain) closes
        simpa [Item.words, first, later] using counted

private theorem afterAll?_items {items : List Item} (each : ∀ item ∈ items, ∀ unclosed,
      Bracket.afterAll? unclosed item.words = some unclosed)
    (unclosed : List Bracket) :
    Bracket.afterAll? unclosed (wordsAll items) = some unclosed := by
  induction items with
  | nil =>
      rw [wordsAll]
      rfl
  | cons item items induction =>
      rcases List.forall_mem_cons.mp each with ⟨first, rest⟩
      rw [wordsAll_cons, Bracket.afterAll?_append, first, Option.bind_some]
      exact induction rest

private theorem afterAll?_item (item : Item) (unclosed : List Bracket) :
    Bracket.afterAll? unclosed item.words = some unclosed := by
  induction item using Item.induction generalizing unclosed with
  | single word plain =>
      rw [words, later, first, Bracket.afterAll?_cons, Bracket.after?_plain plain]
      rfl
  | group bracket opening closing opens closes inner induction =>
      rw [words, later, first, Bracket.afterAll?_cons, Bracket.after?_opening opens,
        Option.bind_some, Bracket.afterAll?_append, afterAll?_items induction,
        Option.bind_some,
        Bracket.afterAll?_cons, Bracket.after?_closing closes]
      rfl

end Item

theorem wellNested_iff_exists_items {words : List Token} :
    WellNested words ↔ ∃ items, Item.wordsAll items = words := by
  constructor
  · intro nested
    exact Item.closes_of_afterAll? nested
  · rintro ⟨items, rfl⟩
    exact Item.afterAll?_items (fun item _ => item.afterAll?_item) []

theorem exists_closing_of_wellNested {before after : List Token} {opening : Token}
    {bracket : Bracket} (nested : WellNested (before ++ opening :: after))
    (opens : opening.kind = bracket.opening) :
    ∃ inner closing rest, closing.kind = bracket.closing ∧
      after = Item.wordsAll inner ++ closing :: rest := by
  rw [WellNested, Bracket.afterAll?_append, Option.bind_eq_some_iff] at nested
  rcases nested with ⟨unclosed, _, closed⟩
  rw [Bracket.afterAll?_cons, Bracket.after?_opening opens, Option.bind_some] at closed
  rcases Item.closes_of_afterAll? closed with ⟨inner, closing, rest, kind, equal, _⟩
  exact ⟨inner, closing, rest, kind, equal⟩

end LispFront
