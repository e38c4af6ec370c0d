import LispFront.Proofs.Interchange.RoundTrip

/-! # Programs read from any of their forms

A text is read as a program if it is a written form of one of the program's JSON forms,
and only then. What is read is read again from the program's own text, since that one
opens no more brackets than any other form (`JsonLibrary.readProgram_eq_ok_iff`). -/

namespace LispFront

/-! ## Forms put together -/

namespace JsonLibrary.Reads

variable {library : JsonLibrary} {Name : Type} {types : Name → Declaration Name}
  (reads : library.Reads types)

include reads

private theorem decodes_text (content : String) :
    library.Decodes types .text (.text content) = .text content := by
  funext levels json
  simp [reads.text]

private theorem decodes_natural (value : Nat) :
    library.Decodes types .natural (.natural value) = .natural value := by
  funext levels json
  simp [reads.natural]

private theorem decodes_list (item : Shape Name) (items : List Datum) :
    library.Decodes types (.list item) (.list items) =
      .list (items.map (library.Decodes types item)) := by
  funext levels json
  simp [reads.list]

private theorem decodes_record {name : Name} {fields : Members (Shape Name)}
    (declared : types name = .record fields) {entries : List (String × Datum)}
    (named : entries.map Prod.fst = fields.names) :
    library.Decodes types (.named name) (.record entries) =
      .record (library.fieldForms types fields (entries.map Prod.snd)) := by
  have size : (entries.map Prod.snd).length = fields.entries.length := by
    simpa [Members.names] using congrArg List.length named
  have parts : entries = fields.names.zip (entries.map Prod.snd) := by
    rw [← named, zip_fst_snd]
  funext levels json
  rw [reads.record declared, eq_iff_iff]
  constructor
  · rintro ⟨contents, size', same, form⟩
    have values : entries.map Prod.snd = contents := by
      rw [Datum.record.inj same, List.map_snd_zip (by simp [Members.names, size'])]
    rwa [values]
  · intro form
    exact ⟨entries.map Prod.snd, size, congrArg Datum.record parts, form⟩

private theorem decodes_variant {name : Name} {variants : Members (Shape Name)}
    (declared : types name = .choice variants) (variant : String) (shape : Shape Name)
    (member : (variant, shape) ∈ variants.entries) (content : Datum) :
    library.Decodes types (.named name) (.variant variant content) =
      .variant variant (library.Decodes types shape content) := by
  funext levels json
  rw [reads.choice declared, eq_iff_iff]
  constructor
  · rintro ⟨⟨variant', shape'⟩, member', content', same, form⟩
    cases same
    cases Members.eq_of_mem member member'
    exact form
  · intro form
    exact ⟨(variant, shape), member, content, rfl, form⟩

private theorem decodes_unit {name : Name} {names : List String}
    (declared : types name = .units names) {unit : String} (member : unit ∈ names) :
    library.Decodes types (.named name) (.unit unit) = .unit unit := by
  funext levels json
  rw [reads.units declared, eq_iff_iff]
  constructor
  · rintro ⟨unit', -, same, form⟩
    cases same
    exact form
  · intro form
    exact ⟨unit, member, rfl, form⟩

end JsonLibrary.Reads

/-! ## The forms of a program -/

section

variable {library : JsonLibrary}

section

variable (reads : library.Reads declarations)

include reads

theorem TokenKind.decodes_eq_forms (kind : TokenKind) :
    library.Decodes declarations (.named .kind) (.unit kind.spelling) = kind.forms :=
  reads.decodes_unit rfl (List.mem_map_of_mem kind.mem_all)

theorem Token.decodes_eq_forms (token : Token) :
    library.Decodes declarations (.named .token) token.toDatum = token.forms := by
  rw [toDatum, reads.decodes_record rfl rfl]
  simp only [JsonLibrary.fieldForms, List.map, List.zipWith, reads.decodes_text,
    reads.decodes_natural, TokenKind.decodes_eq_forms reads]
  rfl

theorem Identifier.decodes_eq_forms (identifier : Identifier) :
    library.Decodes declarations (.named .identifier) identifier.toDatum =
      identifier.forms := by
  rw [toDatum, reads.decodes_record rfl rfl]
  simp only [JsonLibrary.fieldForms, List.map, List.zipWith, reads.decodes_text,
    Token.decodes_eq_forms reads]
  rfl

private theorem map_decodes_parameters (parameters : List Identifier) :
    (parameters.map Identifier.toDatum).map
      (library.Decodes declarations (.named .identifier)) =
        parameters.map Identifier.forms := by
  rw [List.map_map]
  exact List.map_congr_left fun parameter _ => Identifier.decodes_eq_forms reads parameter

private theorem decodes_literal (token : Token) (value : String) :
    library.Decodes declarations (.named .literal)
        (.record [("token", token.toDatum), ("value", .text value)]) =
      .record [("token", token.forms), ("value", .text value)] := by
  rw [reads.decodes_record rfl rfl]
  simp only [JsonLibrary.fieldForms, List.map, List.zipWith, reads.decodes_text,
    Token.decodes_eq_forms reads]

end

mutual

theorem Expression.decodes_eq_forms (reads : library.Reads declarations)
    (expression : Expression) :
    library.Decodes declarations (.named .expression) expression.toDatum =
      expression.forms := by
  cases expression with
  | number token value =>
      rw [Expression.toDatum,
        reads.decodes_variant rfl "Number" (.named .literal) (by simp),
        decodes_literal reads, Expression.forms]
  | string token value =>
      rw [Expression.toDatum,
        reads.decodes_variant rfl "String" (.named .literal) (by simp),
        decodes_literal reads, Expression.forms]
  | identifier name =>
      rw [Expression.toDatum,
        reads.decodes_variant rfl "Identifier" (.named .identifier) (by simp),
        Identifier.decodes_eq_forms reads, Expression.forms]
  | array opening elements =>
      rw [Expression.toDatum, reads.decodes_variant rfl "Array" (.named .array) (by simp),
        reads.decodes_record rfl rfl, Expression.forms]
      simp only [JsonLibrary.fieldForms, List.map, List.zipWith,
        Token.decodes_eq_forms reads, reads.decodes_list,
        map_decodes_expressions reads elements]
  | call opening function arguments =>
      rw [Expression.toDatum, reads.decodes_variant rfl "Call" (.named .call) (by simp),
        reads.decodes_record rfl rfl, Expression.forms]
      simp only [JsonLibrary.fieldForms, List.map, List.zipWith,
        Token.decodes_eq_forms reads, reads.decodes_list,
        map_decodes_expressions reads arguments]
  | function opening name parameters body =>
      rw [Expression.toDatum,
        reads.decodes_variant rfl "Function" (.named .function) (by simp),
        reads.decodes_record rfl rfl, Expression.forms]
      simp only [JsonLibrary.fieldForms, List.map, List.zipWith,
        Token.decodes_eq_forms reads, reads.decodes_list, map_decodes_parameters reads,
        map_decodes_expressions reads body]

theorem map_decodes_expressions (reads : library.Reads declarations)
    (expressions : List Expression) :
    (expressionsToData expressions).map
      (library.Decodes declarations (.named .expression)) = formsAll expressions := by
  cases expressions with
  | nil => rfl
  | cons expression rest =>
      rw [expressionsToData, List.map_cons, expression.decodes_eq_forms reads,
        map_decodes_expressions reads rest, formsAll]

end

theorem Program.decodes_eq_forms (reads : library.Reads declarations)
    (program : Program) :
    library.Decodes declarations (.named .program) program.toDatum = program.forms := by
  rw [toDatum, reads.decodes_record rfl rfl, forms]
  simp only [JsonLibrary.fieldForms, List.map, List.zipWith, reads.decodes_list,
    map_decodes_expressions reads]

end

/-! ## Programs read -/

namespace JsonLibrary

variable {library : JsonLibrary}

/-- A text is read as a program if it is a written form of it, alone but for JSON space,
and what is read is read again from its own text. -/
theorem readProgram_eq_ok_iff (prints : library.Prints)
    (reads : library.Reads declarations) (text : String)
    (paired : Json.IsPaired text.toList) :
    (∀ program, library.readProgram text = .ok program ↔
      ∃ json : Json, json.WrittenAs text.toList ∧ program.forms 127 json) ∧
    ∀ program, library.readProgram text = .ok program →
      ∃ own, library.write program = .ok own ∧ library.readProgram own = .ok program := by
  constructor
  · intro program
    rw [readProgram_eq_ok_iff_read, reads.read_eq_ok_iff paired, reads.nestingLimit_eq]
    simp only [Program.decodes_eq_forms reads]
  · intro program read
    rw [readProgram_eq_ok_iff_read, reads.read_eq_ok_iff paired] at read
    obtain ⟨json, -, decodes⟩ := read
    obtain ⟨hasShape, low⟩ := reads.hasShape decodes
    obtain ⟨own, printed, written⟩ := exists_write prints program
    have readOwn := (reads.read_written_iff hasShape written).mpr ⟨rfl, low⟩
    exact ⟨own, printed, readProgram_eq_ok_iff_read.mpr readOwn⟩

/-- Fields out of their order and beside another, as an array, and a kind that is a
key. -/
theorem readProgram_of_rearranged :
    let kind : Json := .object [(some "IDENT", .null)]
    let token : Json := .object [(some "column", .ofNat 18446744073709551615),
      (some "text", .ofString "é"), (some "more", .array [.array []]),
      (some "kind", kind), (some "line", .ofNat 0)]
    let json : Json := .array [.array [.object
      [(some "Identifier", .array [token, .ofString "\n"])]]]
    let program : Program :=
      ⟨[.identifier ⟨⟨.identifier, "é", ⟨0, 18446744073709551615⟩⟩, "\n"⟩]⟩
    standard.readProgram json.pretty = .ok program ∧
      ∃ own, standard.write program = .ok own ∧
        standard.readProgram own = .ok program := by
  intro kind token json program
  have kindFormed : kind.WellFormed := .object (List.forall_mem_singleton.mpr .null)
  have moreFormed : Json.WellFormed (.array [.array []]) :=
    .array (List.forall_mem_singleton.mpr (.array (by simp)))
  have tokenFormed : token.WellFormed := by
    apply Json.WellFormed.object
    simp only [List.forall_mem_cons, List.not_mem_nil, IsEmpty.forall_iff,
      implies_true, and_true]
    exact ⟨Json.wellFormed_ofNat _, .string _, moreFormed, kindFormed,
      Json.wellFormed_ofNat 0⟩
  have nameFormed : Json.WellFormed (.array [token, .ofString "\n"]) := by
    apply Json.WellFormed.array
    simp only [List.forall_mem_cons, List.not_mem_nil, IsEmpty.forall_iff,
      implies_true, and_true]
    exact ⟨tokenFormed, .string _⟩
  have wellFormed : json.WellFormed :=
    .array (List.forall_mem_singleton.mpr (.array (List.forall_mem_singleton.mpr
      (.object (List.forall_mem_singleton.mpr nameFormed)))))
  have written : json.WrittenAs json.pretty.toList := wellFormed.written 0
  have paired : Json.IsPaired json.pretty.toList := by
    intro value written'
    rw [← Json.eq_of_writtenAs written written']
    decide +kernel
  have decoded :
      standard.Decodes declarations (.named .program) program.toDatum 127 json := by
    rfl
  rw [Program.decodes_eq_forms (standard_reads declarations)] at decoded
  obtain ⟨accepted, again⟩ :=
    readProgram_eq_ok_iff standard_prints (standard_reads declarations) json.pretty paired
  have read := (accepted program).mpr ⟨json, written, decoded⟩
  exact ⟨read, again program read⟩

end JsonLibrary

end LispFront
