import LispFront.Proofs.Interchange.Shape

/-! # Data that are read

What a library that keeps its promises reads. A datum is decoded from what it is written
as, and nothing else is, if no more brackets are needed than can be opened
(`JsonLibrary.Reads.decodes_toJson_iff`). What is decoded is of the declared shape and
needs no more brackets than the form it is decoded from (`JsonLibrary.Reads.hasShape`). -/

namespace LispFront

/-! ## Lists side by side -/

section Lists

variable {α β γ : Type}

private theorem exists_of_forall₂ {related : α → β → Prop} {lefts : List α}
    {rights : List β} (each : List.Forall₂ related lefts rights) {left : α}
    (member : left ∈ lefts) :
    ∃ right, related left right := by
  induction each with
  | nil => cases member
  | cons first later induction =>
      rcases List.mem_cons.mp member with rfl | member
      · exact ⟨_, first⟩
      · exact induction member

theorem forall₂_iff_eq {related : α → α → Prop} {bounded : α → Prop} {items : List α}
    (each : ∀ item ∈ items, ∀ other, related other item ↔ other = item ∧ bounded item)
    {others : List α} :
    List.Forall₂ related others items ↔
      others = items ∧ ∀ item ∈ items, bounded item := by
  induction items generalizing others with
  | nil => simp
  | cons item items induction =>
      rw [List.forall_mem_cons] at each
      simp only [List.forall₂_cons_right_iff, each.1, induction each.2,
        List.forall_mem_cons]
      constructor
      · rintro ⟨other, others, ⟨rfl, first⟩, ⟨rfl, later⟩, rfl⟩
        exact ⟨rfl, first, later⟩
      · rintro ⟨rfl, first, later⟩
        exact ⟨item, items, ⟨rfl, first⟩, ⟨rfl, later⟩, rfl⟩

theorem forall₂_zipWith_iff_eq {combine : γ → α → β} {related : β → α → Prop}
    {bounded : α → Prop} {keys : List γ} {items others : List α}
    (size : items.length = keys.length) (size' : others.length = keys.length)
    (each : ∀ pair ∈ keys.zip items, ∀ other,
      related (combine pair.1 other) pair.2 ↔ other = pair.2 ∧ bounded pair.2) :
    List.Forall₂ related (List.zipWith combine keys others) items ↔
      others = items ∧ ∀ item ∈ items, bounded item := by
  induction keys generalizing items others with
  | nil =>
      cases List.length_eq_zero_iff.mp size
      cases List.length_eq_zero_iff.mp size'
      simp
  | cons key keys induction =>
      obtain ⟨item, items, rfl⟩ := List.exists_cons_of_length_eq_add_one size
      obtain ⟨other, others, rfl⟩ := List.exists_cons_of_length_eq_add_one size'
      rw [List.zip_cons_cons, List.forall_mem_cons] at each
      rw [List.zipWith_cons_cons, List.forall₂_cons, each.1,
        induction (Nat.succ.inj size) (Nat.succ.inj size') each.2, List.cons.injEq,
        List.forall_mem_cons]
      tauto

end Lists

/-! ## Fields -/

namespace JsonLibrary

variable (library : JsonLibrary) {Name : Type} (types : Name → Declaration Name)

theorem fieldForms_eq_map (fields : Members (Shape Name)) (contents : List Datum) :
    library.fieldForms types fields contents = (fields.entries.zip contents).map
      fun pair => (pair.1.1, library.Decodes types pair.1.2 pair.2) :=
  List.map_uncurry_zip_eq_zipWith.symm

theorem map_fst_fieldForms {fields : Members (Shape Name)} {contents : List Datum}
    (size : contents.length = fields.entries.length) :
    (library.fieldForms types fields contents).map Prod.fst = fields.names := by
  have keys := List.map_fst_zip size.ge
  rw [fieldForms_eq_map, List.map_map, Members.names]
  conv_rhs => rw [← keys, List.map_map]
  rfl

theorem record_fieldForms_iff {fields : Members (Shape Name)}
    {others contents : List Datum} (size : others.length = fields.entries.length)
    (size' : contents.length = fields.entries.length) {levels : Nat} :
    JsonForms.record (library.fieldForms types fields others) levels
        (.ofFields (fields.names.zip (contents.map Datum.toJson))) ↔
      ∃ inner, levels = inner + 1 ∧
        List.Forall₂ (fun field content => field.2 inner content.toJson)
          (library.fieldForms types fields others) contents := by
  have names := map_fst_fieldForms library types size
  have distinct : ((library.fieldForms types fields others).map Prod.fst).Nodup := by
    rw [names]
    exact fields.distinct
  have sizes : (library.fieldForms types fields others).length =
      (contents.map Datum.toJson).length := by
    simp [fieldForms, size, size']
  rw [← names, JsonForms.record_ofFields_iff distinct sizes]
  simp only [List.forall₂_map_right_iff]

/-! ## Data decoded -/

namespace Reads

variable {library types} (reads : library.Reads types)

include reads

theorem decodes_toJson_iff {shape : Shape Name} {datum : Datum}
    (hasShape : datum.HasShape types (Set.Iio UInt64.size) shape) {other : Datum}
    {levels : Nat} :
    library.Decodes types shape other levels datum.toJson ↔
      other = datum ∧ datum.height ≤ levels := by
  induction hasShape generalizing other levels with
  | text content =>
      rw [reads.text, Datum.toJson]
      simp [JsonForms.text_ofString_iff, Datum.height]
  | natural inside =>
      rw [reads.natural, Datum.toJson]
      simp [JsonForms.natural_ofNat_iff inside, Datum.height]
  | @list item items each induction =>
      have inside {inner : Nat} {others : List Datum} :
          List.Forall₂ (fun other datum =>
              library.Decodes types item other inner datum.toJson) others items ↔
            others = items ∧ ∀ datum ∈ items, datum.height ≤ inner :=
        forall₂_iff_eq fun datum member other => induction datum member
      rw [reads.list, Datum.toJson, itemsToJson_eq_map, Datum.height_list_le_iff]
      simp only [JsonForms.list_array_iff, List.forall₂_map_left_iff,
        List.forall₂_map_right_iff, inside]
      constructor
      · rintro ⟨others, rfl, inner, rfl, rfl, low⟩
        exact ⟨rfl, inner, rfl, low⟩
      · rintro ⟨rfl, inner, rfl, low⟩
        exact ⟨items, rfl, inner, rfl, rfl, low⟩
  | @record name fields contents declared size each induction =>
      have names : contents.length = fields.names.length := by simp [Members.names, size]
      rw [reads.record declared, Datum.toJson, fieldsToJson_zip,
        Datum.height_record_le_iff names]
      have inside {inner : Nat} {others : List Datum}
          (size' : others.length = fields.entries.length) :
          List.Forall₂ (fun field content => field.2 inner content.toJson)
              (library.fieldForms types fields others) contents ↔
            others = contents ∧ ∀ content ∈ contents, content.height ≤ inner :=
        forall₂_zipWith_iff_eq size size' fun pair member other => induction pair member
      constructor
      · rintro ⟨others, size', rfl, form⟩
        obtain ⟨inner, rfl, forms⟩ :=
          (record_fieldForms_iff library types size' size).mp form
        obtain ⟨rfl, low⟩ := (inside size').mp forms
        exact ⟨rfl, inner, rfl, low⟩
      · rintro ⟨rfl, inner, rfl, low⟩
        have forms := (inside size).mpr ⟨rfl, low⟩
        exact ⟨contents, size, rfl,
          (record_fieldForms_iff library types size size).mpr ⟨inner, rfl, forms⟩⟩
  | @variant name variants content declared variant shape member inside induction =>
      rw [reads.choice declared, Datum.toJson, Datum.height, add_one_le_iff_exists]
      simp only [JsonForms.variant_ofFields_iff]
      constructor
      · rintro ⟨⟨variant', shape'⟩, member', content', rfl, same, inner, rfl, form⟩
        obtain rfl : variant' = variant := same
        cases Members.eq_of_mem member member'
        obtain ⟨rfl, low⟩ := induction.mp form
        exact ⟨rfl, inner, rfl, low⟩
      · rintro ⟨rfl, inner, rfl, low⟩
        exact ⟨(variant, shape), member, content, rfl, rfl, inner, rfl,
          induction.mpr ⟨rfl, low⟩⟩
  | @unit name names unit declared member =>
      rw [reads.units declared, Datum.toJson]
      simp only [JsonForms.unit_ofString_iff, Datum.height, Nat.zero_le, and_true]
      constructor
      · rintro ⟨other, -, rfl, rfl⟩
        rfl
      · rintro rfl
        exact ⟨unit, member, rfl, rfl⟩

theorem hasShape {shape : Shape Name} {datum : Datum} {levels : Nat} {json : Json}
    (decodes : library.Decodes types shape datum levels json) :
    datum.HasShape types (Set.Iio UInt64.size) shape ∧ datum.height ≤ levels := by
  induction levels using Nat.strongRecOn generalizing shape datum json with
  | ind levels induction =>
  cases shape with
  | text =>
      obtain ⟨content, rfl, -⟩ := reads.text.mp decodes
      exact ⟨.text content, Nat.zero_le _⟩
  | natural =>
      obtain ⟨value, rfl, -, -, fits⟩ := reads.natural.mp decodes
      exact ⟨.natural fits, Nat.zero_le _⟩
  | list item =>
      obtain ⟨items, rfl, ⟨each⟩⟩ := reads.list.mp decodes
      rename_i inner values
      rw [List.forall₂_map_left_iff] at each
      have inside : ∀ datum ∈ items,
          datum.HasShape types (Set.Iio UInt64.size) item ∧ datum.height ≤ inner := by
        intro datum member
        obtain ⟨value, decodes⟩ := exists_of_forall₂ each member
        exact induction inner (Nat.lt_succ_self inner) decodes
      exact ⟨.list fun datum member => (inside datum member).1,
        Datum.height_list_le_iff.mpr
          ⟨inner, rfl, fun datum member => (inside datum member).2⟩⟩
  | named name =>
      cases declared : types name with
      | record fields =>
          obtain ⟨contents, size, rfl, form⟩ := (reads.record declared).mp decodes
          obtain ⟨inner, values, rfl, each⟩ := form.exists_forall₂
          have inside : ∀ pair ∈ fields.entries.zip contents,
              pair.2.HasShape types (Set.Iio UInt64.size) pair.1.2 ∧
                pair.2.height ≤ inner := by
            intro pair member
            have field := List.mem_map_of_mem
              (f := fun pair => (pair.1.1, library.Decodes types pair.1.2 pair.2)) member
            rw [← fieldForms_eq_map] at field
            obtain ⟨value, decodes⟩ := exists_of_forall₂ each field
            exact induction inner (Nat.lt_succ_self inner) decodes
          have low : ∀ content ∈ contents, content.height ≤ inner := by
            rw [← List.map_snd_zip size.le, List.forall_mem_map]
            exact fun pair member => (inside pair member).2
          exact ⟨.record declared size fun pair member => (inside pair member).1,
            (Datum.height_record_le_iff (by simp [Members.names, size])).mpr
              ⟨inner, rfl, low⟩⟩
      | choice variants =>
          obtain ⟨⟨variant, shape⟩, member, content, rfl, ⟨form⟩⟩ :=
            (reads.choice declared).mp decodes
          rename_i inner value
          obtain ⟨hasShape, low⟩ := induction inner (Nat.lt_succ_self inner) form
          exact ⟨.variant declared variant shape member hasShape, Nat.succ_le_succ low⟩
      | units names =>
          obtain ⟨unit, member, rfl, -⟩ := (reads.units declared).mp decodes
          exact ⟨.unit declared member, Nat.zero_le _⟩

/-- A datum is read back from any text that it is written as, if that opens no bracket too
many, and nothing is read from it otherwise. -/
theorem read_written_iff {shape : Shape Name} {datum : Datum}
    (hasShape : datum.HasShape types (Set.Iio UInt64.size) shape) {text : String}
    (written : datum.toJson.WrittenAs text.toList) {other : Datum} :
    library.read types shape text = .ok other ↔
      other = datum ∧ datum.height ≤ library.nestingLimit := by
  rw [reads.read_eq_ok_iff (Datum.isPaired written), ← reads.decodes_toJson_iff hasShape]
  constructor
  · rintro ⟨json, written', decodes⟩
    rwa [Json.eq_of_writtenAs written written']
  · intro decodes
    exact ⟨_, written, decodes⟩

end Reads

end JsonLibrary

end LispFront
