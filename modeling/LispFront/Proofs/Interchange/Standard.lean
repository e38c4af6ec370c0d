import LispFront.Interchange.Decode
import LispFront.Proofs.Interchange.Decoding
import LispFront.Proofs.Json.Pretty

/-! # A library that keeps its promises -/

namespace LispFront

/-! ## Printing -/

namespace Json

theorem wellFormed_ofNat (value : Nat) : (ofNat value).WellFormed := by
  have spelled : (toString value).toList = Nat.toDigits 10 value := Nat.toList_repr
  apply WellFormed.number
  rw [spelled]
  exact numeral?_toDigits value

private theorem wellFormed_ofFields {fields : List (String × Json)}
    (each : ∀ field ∈ fields, field.2.WellFormed) : (ofFields fields).WellFormed := by
  apply WellFormed.object
  intro member known
  obtain ⟨field, listed, rfl⟩ := List.mem_map.mp known
  exact each field listed

end Json

mutual

theorem Datum.wellFormed_toJson (datum : Datum) : datum.toJson.WellFormed := by
  cases datum with
  | text content => exact .string content
  | natural value => exact Json.wellFormed_ofNat value
  | list items => exact .array (wellFormed_itemsToJson items)
  | record fields => exact Json.wellFormed_ofFields (wellFormed_fieldsToJson fields)
  | variant name content =>
      have inside := content.wellFormed_toJson
      exact Json.wellFormed_ofFields (by simpa using inside)
  | unit name => exact .string name

theorem wellFormed_itemsToJson (items : List Datum) :
    ∀ item ∈ itemsToJson items, item.WellFormed := by
  cases items with
  | nil => simp [itemsToJson]
  | cons item items =>
      rw [itemsToJson, List.forall_mem_cons]
      exact ⟨item.wellFormed_toJson, wellFormed_itemsToJson items⟩

theorem wellFormed_fieldsToJson (fields : List (String × Datum)) :
    ∀ field ∈ fieldsToJson fields, field.2.WellFormed := by
  cases fields with
  | nil => simp [fieldsToJson]
  | cons field fields =>
      obtain ⟨name, value⟩ := field
      rw [fieldsToJson, List.forall_mem_cons]
      exact ⟨value.wellFormed_toJson, wellFormed_fieldsToJson fields⟩

end

theorem JsonLibrary.standard_prints : standard.Prints := by
  intro datum
  exact ⟨_, rfl, datum.wellFormed_toJson.written 0⟩

/-! ## Reading -/

theorem Members.find?_eq_some_iff {α : Type} {members : Members α} {name : String}
    {value : α} : members.find? name = some value ↔ (name, value) ∈ members.entries := by
  have named {entry : String × α}
      (found : members.entries.find? (·.1 == name) = some entry) : entry.1 = name := by
    have same := List.find?_some found
    exact beq_iff_eq.mp same
  rw [find?, Option.map_eq_some_iff]
  constructor
  · rintro ⟨entry, found, rfl⟩
    rw [← named found]
    exact List.mem_of_find?_eq_some found
  · intro member
    cases found : members.entries.find? (·.1 == name) with
    | none =>
        have apart := List.find?_eq_none.mp found _ member
        simp at apart
    | some entry =>
        have listed := List.mem_of_find?_eq_some found
        rw [← named found] at member
        exact ⟨entry, rfl, eq_of_mem listed member⟩

theorem mapM_zip_eq_some_iff {α β γ δ : Type} {read : γ × α → Option β}
    {combine : γ → β → δ} {related : δ → α → Prop}
    (each : ∀ key value result, read (key, value) = some result ↔
      related (combine key result) value)
    {keys : List γ} {values : List α} (size : values.length = keys.length)
    {results : List β} :
    (keys.zip values).mapM read = some results ↔
      results.length = keys.length ∧
        List.Forall₂ related (List.zipWith combine keys results) values := by
  induction keys generalizing values results with
  | nil =>
      cases List.length_eq_zero_iff.mp size
      simp [eq_comm]
  | cons key keys induction =>
      obtain ⟨value, values, rfl⟩ := List.exists_cons_of_length_eq_add_one size
      have later := @induction values (Nat.succ.inj size)
      simp only [List.zip_cons_cons, List.mapM_cons, Option.bind_eq_bind,
        Option.bind_eq_some_iff, Option.pure_def, Option.some.injEq, later, each]
      constructor
      · rintro ⟨result, first, results, ⟨sizes, rest⟩, rfl⟩
        exact ⟨congrArg Nat.succ sizes, .cons first rest⟩
      · rintro ⟨sizes, rest⟩
        obtain ⟨result, results, rfl⟩ := List.exists_cons_of_length_eq_add_one sizes
        rw [List.zipWith_cons_cons, List.forall₂_cons] at rest
        exact ⟨result, rest.1, results, ⟨Nat.succ.inj sizes, rest.2⟩, rfl⟩

namespace JsonLibrary

section

variable {Name : Type} {types : Name → Declaration Name} {datum : Datum} {levels : Nat}
  {json : Json}

theorem standard_decodes_iff {shape : Shape Name} :
    standard.Decodes types shape datum levels json ↔
      Json.decode? types levels shape json = some datum :=
  Iff.rfl

private theorem standard_list {item : Shape Name} :
    standard.Decodes types (.list item) datum levels json ↔
      ∃ items, datum = .list items ∧
        JsonForms.list (items.map (standard.Decodes types item)) levels json := by
  cases levels with
  | zero =>
      constructor
      · intro read
        cases read
      · rintro ⟨items, -, form⟩
        cases form
  | succ levels =>
      have items_iff {items : List Datum} :
          json.items? (Json.decode? types levels item) = some items ↔
            JsonForms.list (items.map (standard.Decodes types item)) (levels + 1) json :=
        Json.items?_eq_some_iff fun json content => Iff.rfl
      refine Option.map_eq_some_iff.trans (exists_congr fun items => ?_)
      rw [items_iff, and_comm, eq_comm]

private theorem standard_record {name : Name} {fields : Members (Shape Name)}
    (declared : types name = .record fields) :
    standard.Decodes types (.named name) datum levels json ↔
      ∃ contents, contents.length = fields.entries.length ∧
        datum = .record (fields.names.zip contents) ∧
        JsonForms.record (standard.fieldForms types fields contents) levels json := by
  cases levels with
  | zero =>
      constructor
      · intro read
        simp [standard_decodes_iff, Json.decode?, Json.decodeWith?, declared] at read
      · rintro ⟨contents, -, -, form⟩
        cases form
  | succ levels =>
      have step : standard.Decodes types (.named name) datum (levels + 1) json ↔
          json.record? (Json.decode? types levels) fields = some datum := by
        simp [standard_decodes_iff, Json.decode?, Json.decodeWith?, declared]
      have contents_iff {values : List Json}
          (found : json.fields? fields.names = some values) {contents : List Datum} :
          ((fields.entries.zip values).mapM fun pair =>
              Json.decode? types levels pair.1.2 pair.2) = some contents ↔
            contents.length = fields.entries.length ∧
              List.Forall₂ (fun field value => field.2 levels value)
                (standard.fieldForms types fields contents) values := by
        have size : values.length = fields.entries.length := by
          simpa [Members.names] using Json.length_of_fields? found
        exact mapM_zip_eq_some_iff (fun _ _ _ => Iff.rfl) size
      rw [step, Json.record?]
      simp only [Option.bind_eq_bind, Option.bind_eq_some_iff, Option.some.injEq]
      constructor
      · rintro ⟨values, found, contents, read, rfl⟩
        obtain ⟨size, each⟩ := (contents_iff found).mp read
        have names := map_fst_fieldForms standard types size
        refine ⟨contents, size, rfl, (JsonForms.record_iff ?_).mpr ⟨values, ?_, each⟩⟩
        · rw [names]
          exact fields.distinct
        · rw [names, found]
      · rintro ⟨contents, size, rfl, form⟩
        have names := map_fst_fieldForms standard types size
        have distinct := fields.distinct
        rw [← Members.names, ← names] at distinct
        obtain ⟨values, found, each⟩ := (JsonForms.record_iff distinct).mp form
        rw [names] at found
        exact ⟨values, found, contents, (contents_iff found).mpr ⟨size, each⟩, rfl⟩

private theorem standard_choice {name : Name} {variants : Members (Shape Name)}
    (declared : types name = .choice variants) :
    standard.Decodes types (.named name) datum levels json ↔
      ∃ variant ∈ variants.entries, ∃ content, datum = .variant variant.1 content ∧
        JsonForms.variant variant.1 (standard.Decodes types variant.2 content)
          levels json := by
  cases levels with
  | zero =>
      constructor
      · intro read
        simp [standard_decodes_iff, Json.decode?, Json.decodeWith?, declared] at read
      · rintro ⟨variant, -, content, -, form⟩
        cases form
  | succ levels =>
      have step : standard.Decodes types (.named name) datum (levels + 1) json ↔
          json.variant? (Json.decode? types levels) variants = some datum := by
        simp [standard_decodes_iff, Json.decode?, Json.decodeWith?, declared]
      rw [step]
      constructor
      · intro read
        unfold Json.variant? at read
        split at read
        · simp only [Option.bind_eq_bind, Option.bind_eq_some_iff,
            Option.some.injEq] at read
          obtain ⟨shape, found, content, decoded, rfl⟩ := read
          exact ⟨_, Members.find?_eq_some_iff.mp found, content, rfl, .object decoded⟩
        · cases read
      · rintro ⟨⟨variant, shape⟩, member, content, rfl, ⟨inside⟩⟩
        have decoded : Json.decode? types levels shape _ = some content := inside
        simp [Json.variant?, Members.find?_eq_some_iff.mpr member, decoded]

private theorem standard_units {name : Name} {names : List String}
    (declared : types name = .units names) :
    standard.Decodes types (.named name) datum levels json ↔
      ∃ unit ∈ names, datum = .unit unit ∧ JsonForms.unit unit levels json := by
  have step : standard.Decodes types (.named name) datum levels json ↔
      json.unit? (levels ≠ 0) names = some datum := by
    cases levels <;> simp [standard_decodes_iff, Json.decode?, Json.decodeWith?, declared]
  rw [step]
  constructor
  · intro read
    unfold Json.unit? at read
    split at read
    · obtain ⟨member, same⟩ := Option.ite_none_right_eq_some.mp read
      cases same
      exact ⟨_, member, rfl, .string⟩
    · obtain ⟨⟨room, member⟩, same⟩ := Option.ite_none_right_eq_some.mp read
      cases same
      obtain ⟨inner, rfl⟩ := Nat.exists_eq_succ_of_ne_zero (of_decide_eq_true room)
      exact ⟨_, member, rfl, .object⟩
    · cases read
  · rintro ⟨unit, member, rfl, form⟩
    cases form <;> simp [Json.unit?, member]

private theorem standard_read {shape : Shape Name} {text : String} :
    standard.read types shape text = .ok datum ↔
      ∃ json : Json, json.WrittenAs text.toList ∧
        standard.Decodes types shape datum standard.nestingLimit json := by
  simp only [← Json.ofText?_eq_some_iff, standard_decodes_iff, ← Option.bind_eq_some_iff]
  change Option.elim _ (Except.error _) Except.ok = _ ↔ _
  rw [show standard.nestingLimit = 127 from rfl]
  generalize (Json.ofText? text).bind (Json.decode? types 127 shape) = decoded
  cases decoded with
  | none => simp
  | some other => simp

end

theorem standard_reads {Name : Type} (types : Name → Declaration Name) :
    standard.Reads types where
  nestingLimit_eq := rfl
  read_eq_ok_iff _ := standard_read
  text := by
    intro datum levels json
    simp only [← Json.text?_eq_some_iff]
    cases levels <;> exact Option.map_eq_some_iff.trans (by simp [and_comm, eq_comm])
  natural := by
    intro datum levels json
    simp only [← Json.natural?_eq_some_iff]
    cases levels <;> exact Option.map_eq_some_iff.trans (by simp [and_comm, eq_comm])
  list := standard_list
  record := fun declared => standard_record declared
  choice := fun declared => standard_choice declared
  units := fun declared => standard_units declared

end JsonLibrary

end LispFront
