import Mathlib.Data.List.Nodup
import Mathlib.Order.Interval.Set.Defs
import LispFront.Proofs.Interchange.Fields
import LispFront.Proofs.Interchange.Laws
import LispFront.Proofs.Json.Reading

/-! # Data of a shape

Two data of one shape are never written as one value (`Datum.HasShape.toJson_inj`),
whatever numbers they have. No text that a datum is written as has a surrogate by itself
(`Datum.isPaired`). -/

namespace LispFront

/-! ## Shapes -/

/-- The datum is of the shape, and its numbers are among the given. -/
inductive Datum.HasShape {Name : Type} (types : Name → Declaration Name)
    (numbers : Set Nat) : Shape Name → Datum → Prop
  | text (content : String) : HasShape types numbers .text (.text content)
  | natural {value : Nat} (inside : value ∈ numbers) :
      HasShape types numbers .natural (.natural value)
  | list {item : Shape Name} {items : List Datum}
      (each : ∀ datum ∈ items, HasShape types numbers item datum) :
      HasShape types numbers (.list item) (.list items)
  | record {name : Name} {fields : Members (Shape Name)} {contents : List Datum}
      (declared : types name = .record fields)
      (size : contents.length = fields.entries.length)
      (each : ∀ pair ∈ fields.entries.zip contents,
        HasShape types numbers pair.1.2 pair.2) :
      HasShape types numbers (.named name) (.record (fields.names.zip contents))
  | variant {name : Name} {variants : Members (Shape Name)} {content : Datum}
      (declared : types name = .choice variants) (variant : String) (shape : Shape Name)
      (member : (variant, shape) ∈ variants.entries)
      (inside : HasShape types numbers shape content) :
      HasShape types numbers (.named name) (.variant variant content)
  | unit {name : Name} {names : List String} {unit : String}
      (declared : types name = .units names) (member : unit ∈ names) :
      HasShape types numbers (.named name) (.unit unit)

mutual

/-- How many brackets are open at once in what the datum is written as. -/
def Datum.height : Datum → Nat
  | .text _ | .natural _ | .unit _ => 0
  | .list items => heightOfItems items + 1
  | .record fields => heightOfFields fields + 1
  | .variant _ content => content.height + 1

def heightOfItems : List Datum → Nat
  | [] => 0
  | item :: items => max item.height (heightOfItems items)

def heightOfFields : List (String × Datum) → Nat
  | [] => 0
  | (_, value) :: fields => max value.height (heightOfFields fields)

end

theorem heightOfItems_le_iff {items : List Datum} {levels : Nat} :
    heightOfItems items ≤ levels ↔ ∀ item ∈ items, item.height ≤ levels := by
  induction items with
  | nil => simp [heightOfItems]
  | cons item items induction =>
      rw [heightOfItems, Nat.max_le, induction, List.forall_mem_cons]

theorem heightOfFields_le_iff {fields : List (String × Datum)} {levels : Nat} :
    heightOfFields fields ≤ levels ↔ ∀ field ∈ fields, field.2.height ≤ levels := by
  induction fields with
  | nil => simp [heightOfFields]
  | cons field fields induction =>
      obtain ⟨name, value⟩ := field
      rw [heightOfFields, Nat.max_le, induction, List.forall_mem_cons]

theorem add_one_le_iff_exists {height levels : Nat} :
    height + 1 ≤ levels ↔ ∃ inner, levels = inner + 1 ∧ height ≤ inner := by
  constructor
  · intro room
    exact ⟨levels - 1, by omega, by omega⟩
  · rintro ⟨inner, rfl, room⟩
    exact Nat.succ_le_succ room

namespace Datum

theorem height_list_le_iff {items : List Datum} {levels : Nat} :
    (list items).height ≤ levels ↔
      ∃ inner, levels = inner + 1 ∧ ∀ item ∈ items, item.height ≤ inner := by
  rw [height, add_one_le_iff_exists]
  simp only [heightOfItems_le_iff]

theorem height_record_le_iff {names : List String} {contents : List Datum}
    (size : contents.length = names.length) {levels : Nat} :
    (record (names.zip contents)).height ≤ levels ↔
      ∃ inner, levels = inner + 1 ∧ ∀ content ∈ contents, content.height ≤ inner := by
  have values {inner : Nat} : (∀ content ∈ contents, content.height ≤ inner) ↔
      ∀ field ∈ names.zip contents, field.2.height ≤ inner := by
    conv_lhs => rw [← List.map_snd_zip size.le]
    exact List.forall_mem_map
  rw [height, add_one_le_iff_exists]
  simp only [heightOfFields_le_iff, values]

end Datum

namespace Members

variable {α : Type} {members : Members α} {name : String} {value value' : α}

theorem eq_of_mem (member : (name, value) ∈ members.entries)
    (member' : (name, value') ∈ members.entries) : value = value' :=
  congrArg Prod.snd (List.inj_on_of_nodup_map members.distinct member member' rfl)

end Members

/-! ## Lists side by side -/

section Lists

variable {α β : Type}

private theorem pair_mem_zip {lefts : List α} {rights : List β} {index : Nat}
    (bound : index < lefts.length) (bound' : index < rights.length) :
    (lefts[index], rights[index]) ∈ lefts.zip rights := by
  have inside : index < (lefts.zip rights).length := by
    rw [List.length_zip]
    omega
  exact List.mem_iff_getElem.mpr ⟨index, inside, List.getElem_zip⟩

private theorem eq_of_map_eq {transform : α → β} {lefts rights : List α}
    (same : lefts.map transform = rights.map transform)
    (each :
      ∀ (index : Nat) (bound : index < lefts.length) (bound' : index < rights.length),
        transform lefts[index] = transform rights[index] → lefts[index] = rights[index]) :
    lefts = rights := by
  have size : lefts.length = rights.length := by
    simpa only [List.length_map] using congrArg List.length same
  apply List.ext_getElem size
  intro index bound bound'
  apply each
  have image := List.getElem_of_eq same ((List.length_map transform).symm ▸ bound)
  rwa [List.getElem_map, List.getElem_map] at image

theorem zip_fst_snd (entries : List (α × β)) :
    (entries.map Prod.fst).zip (entries.map Prod.snd) = entries := by
  rw [List.zip_map', List.map_id']

end Lists

/-! ## Data told apart -/

namespace Json

private theorem ofNat_inj {left right : Nat} :
    ofNat left = ofNat right ↔ left = right := by
  constructor
  · intro same
    have numerals : toString left = toString right := Json.number.inj same
    have digits := congrArg (fun numeral => digitsValue numeral.toList) numerals
    have spelled (value : Nat) : (toString value).toList = Nat.toDigits 10 value :=
      Nat.toList_repr
    simpa only [spelled, digitsValue_toDigits] using digits
  · exact congrArg ofNat

private theorem ofFields_inj {left right : List (String × Json)} :
    ofFields left = ofFields right ↔ left = right := by
  rw [ofFields_eq, ofFields_eq, object.injEq]
  exact (List.map_injective_iff.mpr member_injective).eq_iff

end Json

theorem fieldsToJson_zip (names : List String) (contents : List Datum) :
    fieldsToJson (names.zip contents) = names.zip (contents.map Datum.toJson) := by
  rw [fieldsToJson_eq_map, List.zip_map_right]
  rfl

namespace Datum

variable {Name : Type} {types : Name → Declaration Name} {numbers : Set Nat}
  {shape : Shape Name}

theorem hasShape_record {name : Name} {fields : Members (Shape Name)}
    (declared : types name = .record fields) {entries : List (String × Datum)}
    (named : entries.map Prod.fst = fields.names)
    (each : List.Forall₂ (fun field entry => HasShape types numbers field.2 entry.2)
      fields.entries entries) :
    HasShape types numbers (.named name) (.record entries) := by
  rw [← zip_fst_snd entries, named]
  refine .record declared (by simp [each.length_eq]) ?_
  rw [List.zip_map_right, List.forall_mem_map]
  rw [List.forall₂_iff_zip] at each
  rintro ⟨field, entry⟩ member
  exact each.2 member

/-- Data of one shape are written as different values. -/
theorem HasShape.toJson_inj {left right : Datum}
    (hasShape : left.HasShape types numbers shape)
    (hasShape' : right.HasShape types numbers shape) (same : left.toJson = right.toJson) :
    left = right := by
  induction hasShape generalizing right with
  | text content =>
      cases hasShape' with
      | text content' =>
          cases same
          rfl
  | natural inside =>
      cases hasShape' with
      | natural inside' => rw [Json.ofNat_inj.mp same]
  | @list item items each induction =>
      cases hasShape' with
      | @list _ items' each' =>
          have values : itemsToJson items = itemsToJson items' := Json.array.inj same
          rw [itemsToJson_eq_map, itemsToJson_eq_map] at values
          congr 1
          exact eq_of_map_eq values fun index bound bound' =>
            induction _ (List.getElem_mem bound) (each' _ (List.getElem_mem bound'))
  | @record name fields contents declared size each induction =>
      cases hasShape' with
      | @record _ fields' contents' declared' size' each' =>
          cases declared.symm.trans declared'
          have values := Json.ofFields_inj.mp same
          rw [fieldsToJson_zip, fieldsToJson_zip] at values
          have inside := congrArg (List.map Prod.snd) values
          rw [List.map_snd_zip (by simp [Members.names, size]),
            List.map_snd_zip (by simp [Members.names, size'])] at inside
          congr 2
          exact eq_of_map_eq inside fun index bound bound' =>
            induction _ (pair_mem_zip (size ▸ bound) bound)
              (each' _ (pair_mem_zip (size' ▸ bound') bound'))
      | _ declared' => cases declared.symm.trans declared'
  | @variant name variants content declared variant shape member inside induction =>
      cases hasShape' with
      | @variant _ variants' content' declared' variant' shape' member' inside' =>
          cases declared.symm.trans declared'
          have members := Json.ofFields_inj.mp same
          simp only [List.cons.injEq, Prod.mk.injEq, and_true] at members
          obtain ⟨rfl, values⟩ := members
          cases Members.eq_of_mem member member'
          rw [induction inside' values]
      | _ declared' => cases declared.symm.trans declared'
  | @unit name names unit declared member =>
      cases hasShape' with
      | @unit _ names' unit' declared' member' =>
          cases same
          rfl
      | _ declared' => cases declared.symm.trans declared'

end Datum

/-! ## Data in texts -/

theorem Json.eq_of_writtenAs {left right : Json} {text : String}
    (written : left.WrittenAs text.toList) (written' : right.WrittenAs text.toList) :
    left = right := by
  rw [← Json.ofText?_eq_some_iff] at written written'
  exact Option.some.inj (written.symm.trans written')

theorem Json.mem_commaSeparated {parts : List (List Symbol)} {symbol : Symbol}
    (member : symbol ∈ commaSeparated parts) :
    symbol = .comma ∨ ∃ part ∈ parts, symbol ∈ part := by
  induction parts with
  | nil => cases member
  | cons part parts induction =>
      cases parts with
      | nil =>
          exact .inr
            ⟨part, List.mem_cons_self, by rwa [commaSeparated_singleton] at member⟩
      | cons next parts =>
          rw [commaSeparated_cons_cons, List.mem_append, List.mem_cons] at member
          rcases member with own | separator | later
          · exact .inr ⟨part, List.mem_cons_self, own⟩
          · exact .inl separator
          · rcases induction later with separator | ⟨other, listed, known⟩
            · exact .inl separator
            · exact .inr ⟨other, List.mem_cons_of_mem _ listed, known⟩

theorem Json.notMem_commaSeparated {parts : List (List Symbol)} {text : JsonText}
    (each : ∀ part ∈ parts, .string text ∉ part) :
    .string text ∉ commaSeparated parts := by
  intro member
  rcases mem_commaSeparated member with separator | ⟨part, listed, known⟩
  · cases separator
  · exact each part listed known

mutual

theorem Datum.string_none_notMem (datum : Datum) :
    .string none ∉ datum.toJson.symbols := by
  cases datum with
  | text content | unit name => simp [Datum.toJson, Json.ofString, Json.symbols]
  | natural value => simp [Datum.toJson, Json.ofNat, Json.symbols]
  | list items =>
      have inside := Json.notMem_commaSeparated (string_none_notMem_items items)
      simpa [Datum.toJson, Json.symbols] using inside
  | record fields =>
      have inside := Json.notMem_commaSeparated (string_none_notMem_fields fields)
      simpa [Datum.toJson, Json.ofFields_eq, Json.symbols] using inside
  | variant name content =>
      have inside := content.string_none_notMem
      simpa [Datum.toJson, Json.ofFields, Json.symbols, Json.memberSymbols,
        Json.commaSeparated_singleton] using inside

theorem string_none_notMem_items (items : List Datum) :
    ∀ symbols ∈ Json.itemSymbols (itemsToJson items), .string none ∉ symbols := by
  cases items with
  | nil => simp [itemsToJson, Json.itemSymbols]
  | cons item items =>
      rw [itemsToJson, Json.itemSymbols, List.forall_mem_cons]
      exact ⟨item.string_none_notMem, string_none_notMem_items items⟩

theorem string_none_notMem_fields (fields : List (String × Datum)) :
    ∀ symbols ∈ Json.memberSymbols ((fieldsToJson fields).map Json.member),
      .string none ∉ symbols := by
  cases fields with
  | nil => simp [fieldsToJson, Json.memberSymbols]
  | cons field fields =>
      obtain ⟨name, value⟩ := field
      rw [fieldsToJson, List.map_cons, Json.member, Json.memberSymbols,
        List.forall_mem_cons]
      have inside := value.string_none_notMem
      exact ⟨by simpa using inside, string_none_notMem_fields fields⟩

end

theorem Datum.isPaired {datum : Datum} {text : String}
    (written : datum.toJson.WrittenAs text.toList) : Json.IsPaired text.toList := by
  intro value written'
  rw [← Json.eq_of_writtenAs written written']
  exact datum.string_none_notMem

end LispFront
