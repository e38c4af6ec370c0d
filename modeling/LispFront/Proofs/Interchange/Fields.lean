import Mathlib.Data.List.Forall2
import LispFront.Interchange.Decode
import LispFront.Proofs.Interchange.Forms
import LispFront.Proofs.Json.Numeral

/-! # Structures and lists in JSON

What the fields of a structure are read off is a form of it, and nothing else is
(`JsonForms.record_iff`). The JSON that a datum is written as is a form of that datum
alone, bracket by bracket (`JsonForms.record_ofFields_iff` and those beside it). -/

namespace LispFront

theorem mapM_eq_some_iff {α β : Type} {read : α → Option β} {items : List α}
    {results : List β} :
    items.mapM read = some results ↔
      List.Forall₂ (fun item result => read item = some result) items results := by
  induction items generalizing results with
  | nil =>
      rw [List.mapM_nil, List.forall₂_nil_left_iff]
      exact ⟨fun same => (Option.some.inj same).symm, fun same => congrArg some same.symm⟩
  | cons item items induction =>
      simp only [List.mapM_cons, Option.bind_eq_bind, Option.bind_eq_some_iff,
        Option.pure_def, induction, Option.some.injEq, List.forall₂_cons_left_iff]
      constructor
      · rintro ⟨result, read, later, each, rfl⟩
        exact ⟨result, later, read, each, rfl⟩
      · rintro ⟨result, later, read, each, rfl⟩
        exact ⟨result, read, later, each, rfl⟩

namespace Json

/-! ## Leaves and lists -/

theorem text?_eq_some_iff {json : Json} {content : String} {levels : Nat} :
    json.text? = some content ↔ JsonForms.text content levels json := by
  constructor
  · intro read
    cases json with
    | string text =>
        obtain rfl : text = some content := read
        exact .string
    | _ => cases read
  · rintro ⟨⟩
    rfl

theorem natural?_eq_some_iff {json : Json} {value levels : Nat} :
    json.natural? = some value ↔ JsonForms.natural value levels json := by
  constructor
  · intro read
    cases json with
    | number numeral =>
        simp only [natural?, Option.ite_none_right_eq_some, List.all_eq_true,
          Option.some.injEq] at read
        obtain ⟨⟨digits, fits⟩, stands⟩ := read
        exact .digits digits stands (stands ▸ fits)
    | _ => cases read
  · rintro ⟨digits, stands, fits⟩
    subst stands
    exact if_pos ⟨List.all_eq_true.mpr digits, fits⟩

private theorem natural?_ofNat {value : Nat} (fits : value < UInt64.size) :
    natural? (ofNat value) = some value := by
  have digits : (Nat.toDigits 10 value).all Char.isDigit = true :=
    List.all_eq_true.mpr fun c member =>
      Nat.isDigit_of_mem_toDigits (by decide) (by decide) member
  have spelled : (toString value).toList = Nat.toDigits 10 value := Nat.toList_repr
  rw [ofNat, natural?, spelled, digitsValue_toDigits]
  exact if_pos ⟨digits, fits⟩

theorem items?_eq_some_iff {α : Type} {item? : Json → Option α} {forms : α → JsonForms}
    {levels : Nat} (each : ∀ json item, item? json = some item ↔ forms item levels json)
    {json : Json} {items : List α} :
    json.items? item? = some items ↔
      JsonForms.list (items.map forms) (levels + 1) json := by
  have forms_iff {values : List Json} :
      List.Forall₂ (fun value item => item? value = some item) values items ↔
        List.Forall₂ (fun forms value => forms levels value)
          (items.map forms) values := by
    rw [List.forall₂_map_left_iff]
    simp only [each]
    exact ⟨List.Forall₂.flip, List.Forall₂.flip⟩
  constructor
  · intro read
    cases json with
    | array values => exact .array (forms_iff.mp (mapM_eq_some_iff.mp read))
    | _ => cases read
  · rintro ⟨forms⟩
    exact mapM_eq_some_iff.mpr (forms_iff.mpr forms)

/-! ## Members -/

theorem member_injective : Function.Injective member := by
  rintro ⟨name, value⟩ ⟨name', value'⟩ same
  cases same
  rfl

theorem ofFields_eq (fields : List (String × Json)) :
    ofFields fields = .object (fields.map member) :=
  rfl

private theorem exists_eq_map_member {members : List (JsonText × Json)}
    (texts : ∀ member ∈ members, member.1.isSome = true) :
    ∃ pairs : List (String × Json), members = pairs.map member := by
  induction members with
  | nil => exact ⟨[], rfl⟩
  | cons first members induction =>
      rcases List.forall_mem_cons.mp texts with ⟨text, texts⟩
      obtain ⟨pairs, rfl⟩ := induction texts
      obtain ⟨name, named⟩ := Option.isSome_iff_exists.mp text
      exact ⟨(name, first.2) :: pairs, by simp [member, ← named]⟩

theorem filter_map_member (pairs : List (String × Json)) (name : String) :
    (pairs.map member).filter (fun other => other.1 == some name) =
      (pairs.filter fun pair => pair.1 == name).map member := by
  rw [List.filter_map]
  congr 2

theorem field?_eq_some_iff {members : List (JsonText × Json)} {name : String}
    {value : Json} :
    field? members name = some value ↔
      members.filter (fun other => other.1 == some name) = [member (name, value)] := by
  have named : ∀ other ∈ members.filter (fun other => other.1 == some name),
      other.1 = some name :=
    fun other listed => beq_iff_eq.mp (List.mem_filter.mp listed).2
  rw [field?]
  generalize kept : members.filter _ = found
  have same : members.filter (fun other => other.1 == some name) = found := kept
  rw [same] at named
  cases found with
  | nil => simp
  | cons first later =>
      cases later with
      | nil =>
          obtain ⟨key, other⟩ := first
          obtain rfl : key = some name := named _ (List.mem_singleton_self _)
          simp [member]
      | cons second later => simp

private theorem filter_key_eq_singleton {fields : List (String × Json)}
    (distinct : (fields.map Prod.fst).Nodup) {field : String × Json}
    (listed : field ∈ fields) :
    fields.filter (fun other => other.1 == field.1) = [field] := by
  induction fields with
  | nil => cases listed
  | cons other fields induction =>
      rw [List.map_cons, List.nodup_cons] at distinct
      rcases List.mem_cons.mp listed with rfl | listed
      · have apart : fields.filter (fun other => other.1 == field.1) = [] := by
          rw [List.filter_eq_nil_iff]
          intro other known same
          exact distinct.1 (List.mem_map.mpr ⟨other, known, beq_iff_eq.mp same⟩)
        rw [List.filter_cons_of_pos (by simp), apart]
      · have apart : other.1 ≠ field.1 := fun same =>
          distinct.1 (List.mem_map.mpr ⟨field, listed, same.symm⟩)
        rw [List.filter_cons_of_neg (by simp [apart]), induction distinct.2 listed]

/-! ## Fields -/

theorem length_of_fields? {json : Json} {names : List String} {values : List Json}
    (read : json.fields? names = some values) : values.length = names.length := by
  cases json with
  | array items =>
      obtain ⟨size, same⟩ := Option.ite_none_right_eq_some.mp read
      cases same
      exact size
  | object members =>
      obtain ⟨-, read⟩ := Option.ite_none_right_eq_some.mp read
      exact (mapM_eq_some_iff.mp read).length_eq.symm
  | _ => cases read

theorem exists_arrangement {names : List String} {values : List Json}
    (distinct : names.Nodup) {pairs : List (String × Json)}
    (found : List.Forall₂ (fun name value => pairs.filter (·.1 == name) = [(name, value)])
      names values) :
    ∃ others : List (String × Json), (∀ other ∈ others, other.1 ∉ names) ∧
      pairs.Perm (names.zip values ++ others) := by
  induction names generalizing pairs values with
  | nil => exact ⟨pairs, by simp, .refl _⟩
  | cons name names induction =>
      obtain ⟨value, values, first, later, rfl⟩ := List.forall₂_cons_left_iff.mp found
      rw [List.nodup_cons] at distinct
      have foundLater : List.Forall₂ (fun other value =>
          (pairs.filter (!·.1 == name)).filter (·.1 == other) = [(other, value)])
          names values := by
        rw [List.forall₂_iff_zip] at later ⊢
        refine ⟨later.1, fun {other value} listed => ?_⟩
        have apart : name ≠ other := by
          rintro rfl
          exact distinct.1 (List.of_mem_zip listed).1
        rw [List.filter_filter, ← later.2 listed]
        congr 1
        funext pair
        cases same : pair.1 == other with
        | false => rfl
        | true => simp [beq_iff_eq.mp same, apart.symm]
      obtain ⟨others, foreign, arranged⟩ := induction distinct.2 foundLater
      have parts :=
        List.filter_append_perm (fun pair : String × Json => pair.1 == name) pairs
      rw [first] at parts
      refine ⟨others, fun other member => ?_,
        parts.symm.trans (arranged.cons (name, value))⟩
      have kept : other ∈ pairs.filter (!·.1 == name) :=
        arranged.mem_iff.mpr (List.mem_append_right _ member)
      rw [List.mem_cons, not_or]
      exact ⟨by simpa using (List.mem_filter.mp kept).2, foreign other member⟩

section

variable {names : List String} {values : List Json} {others : List (String × Json)}

private theorem filter_arrangement (distinct : names.Nodup)
    (size : names.length = values.length) (foreign : ∀ other ∈ others, other.1 ∉ names)
    {name : String} {value : Json} (listed : (name, value) ∈ names.zip values) :
    (names.zip values ++ others).filter (·.1 == name) = [(name, value)] := by
  have own : (names.zip values).filter (·.1 == name) = [(name, value)] :=
    filter_key_eq_singleton (by rwa [List.map_fst_zip size.le]) listed
  have none : others.filter (·.1 == name) = [] := by
    rw [List.filter_eq_nil_iff]
    intro other member same
    exact foreign other member (beq_iff_eq.mp same ▸ (List.of_mem_zip listed).1)
  rw [List.filter_append, own, none, List.append_nil]

theorem fields?_object (distinct : names.Nodup) (size : names.length = values.length)
    (foreign : ∀ other ∈ others, other.1 ∉ names) {members : List (JsonText × Json)}
    (arranged : members.Perm ((names.zip values ++ others).map member)) :
    (Json.object members).fields? names = some values := by
  have texts : members.all (fun other => other.1.isSome) = true := by
    rw [List.all_eq_true]
    intro other listed
    obtain ⟨pair, -, rfl⟩ := List.mem_map.mp (arranged.mem_iff.mp listed)
    rfl
  refine (if_pos texts).trans ?_
  rw [mapM_eq_some_iff, List.forall₂_iff_zip]
  refine ⟨size, fun {name value} listed => field?_eq_some_iff.mpr ?_⟩
  have found := arranged.filter fun other => other.1 == some name
  rw [filter_map_member, filter_arrangement distinct size foreign listed] at found
  exact List.perm_singleton.mp found

theorem fields?_ofFields (distinct : names.Nodup) (size : names.length = values.length) :
    (ofFields (names.zip values)).fields? names = some values := by
  have foreign : ∀ other ∈ ([] : List (String × Json)), other.1 ∉ names := by simp
  rw [ofFields_eq]
  apply fields?_object distinct size foreign
  rw [List.append_nil]

end

end Json

namespace JsonForms

theorem record.exists_forall₂ {fields : List (String × JsonForms)} {levels : Nat}
    {json : Json} (form : record fields levels json) :
    ∃ inner values, levels = inner + 1 ∧
      List.Forall₂ (fun field value => field.2 inner value) fields values := by
  cases form with
  | array each | object each => exact ⟨_, _, rfl, each⟩

theorem record_iff {fields : List (String × JsonForms)}
    (distinct : (fields.map Prod.fst).Nodup) {levels : Nat} {json : Json} :
    record fields (levels + 1) json ↔
      ∃ values, json.fields? (fields.map Prod.fst) = some values ∧
        List.Forall₂ (fun field value => field.2 levels value) fields values := by
  constructor
  · intro form
    cases form with
    | array each => exact ⟨_, if_pos (by rw [List.length_map, each.length_eq]), each⟩
    | object each foreign arranged =>
        have size := (List.length_map Prod.fst).trans each.length_eq
        exact ⟨_, Json.fields?_object distinct size foreign arranged, each⟩
  · rintro ⟨values, read, each⟩
    cases json with
    | array items =>
        obtain ⟨-, same⟩ := Option.ite_none_right_eq_some.mp read
        cases same
        exact .array each
    | object members =>
        obtain ⟨texts, read⟩ := Option.ite_none_right_eq_some.mp read
        obtain ⟨pairs, rfl⟩ := Json.exists_eq_map_member (List.all_eq_true.mp texts)
        rw [mapM_eq_some_iff] at read
        have found : List.Forall₂
            (fun name value => pairs.filter (·.1 == name) = [(name, value)])
            (fields.map Prod.fst) values := read.imp fun name value field => by
          rw [Json.field?_eq_some_iff, Json.filter_map_member] at field
          exact List.map_injective_iff.mpr Json.member_injective field
        obtain ⟨others, foreign, arranged⟩ := Json.exists_arrangement distinct found
        exact .object each foreign (arranged.map Json.member)
    | _ => cases read

/-! ## What data are written as -/

theorem text_ofString_iff {content other : String} {levels : Nat} :
    text content levels (.ofString other) ↔ content = other := by
  rw [← Json.text?_eq_some_iff]
  exact Option.some_inj.trans eq_comm

theorem natural_ofNat_iff {value other levels : Nat} (fits : other < UInt64.size) :
    natural value levels (.ofNat other) ↔ value = other := by
  rw [← Json.natural?_eq_some_iff, Json.natural?_ofNat fits]
  exact Option.some_inj.trans eq_comm

theorem list_array_iff {items : List JsonForms} {levels : Nat} {values : List Json} :
    list items levels (.array values) ↔
      ∃ inner, levels = inner + 1 ∧
        List.Forall₂ (fun forms value => forms inner value) items values := by
  constructor
  · rintro ⟨each⟩
    exact ⟨_, rfl, each⟩
  · rintro ⟨inner, rfl, each⟩
    exact .array each

theorem record_ofFields_iff {fields : List (String × JsonForms)} {values : List Json}
    (distinct : (fields.map Prod.fst).Nodup) (size : fields.length = values.length)
    {levels : Nat} :
    record fields levels (.ofFields ((fields.map Prod.fst).zip values)) ↔
      ∃ inner, levels = inner + 1 ∧
        List.Forall₂ (fun field value => field.2 inner value) fields values := by
  have own := Json.fields?_ofFields distinct ((List.length_map _).trans size)
  constructor
  · intro form
    obtain _ | inner := levels
    · cases form
    · obtain ⟨others, read, each⟩ := (record_iff distinct).mp form
      rw [own] at read
      cases read
      exact ⟨inner, rfl, each⟩
  · rintro ⟨inner, rfl, each⟩
    exact (record_iff distinct).mpr ⟨values, own, each⟩

theorem variant_ofFields_iff {name other : String} {content : JsonForms} {levels : Nat}
    {value : Json} :
    variant name content levels (.ofFields [(other, value)]) ↔
      name = other ∧ ∃ inner, levels = inner + 1 ∧ content inner value := by
  constructor
  · rintro ⟨inside⟩
    exact ⟨rfl, _, rfl, inside⟩
  · rintro ⟨rfl, inner, rfl, inside⟩
    exact .object inside

theorem unit_ofString_iff {name other : String} {levels : Nat} :
    unit name levels (.ofString other) ↔ name = other := by
  constructor
  · rintro ⟨⟩
    rfl
  · rintro rfl
    exact .string

end JsonForms

end LispFront
