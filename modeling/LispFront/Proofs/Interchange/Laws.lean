import LispFront.Interchange.Library
import LispFront.Proofs.Interchange.Forms
import LispFront.Proofs.Json.Grammar

/-! # What a library for JSON promises

The text that is printed is a written form of the datum (`JsonLibrary.Prints`). A text is
read as a datum if it is written as a value that is decoded as the datum
(`JsonLibrary.Reads`), and which values these are goes by the shape, one bracket at a
time. -/

namespace LispFront

/-- If the text is JSON, no surrogate is escaped in it without its partner. -/
def Json.IsPaired (text : List Char) : Prop :=
  ∀ value : Json, value.WrittenAs text → .string none ∉ value.symbols

namespace JsonLibrary

variable (library : JsonLibrary) {Name : Type} (types : Name → Declaration Name)

def Prints : Prop :=
  ∀ datum : Datum, ∃ text, library.print datum = .ok text ∧
    datum.toJson.WrittenAs text.toList

/-- The values that are decoded as the datum. -/
def Decodes (shape : Shape Name) (datum : Datum) : JsonForms :=
  fun levels json => library.decode? types shape levels json = some datum

def fieldForms (fields : Members (Shape Name)) (contents : List Datum) :
    List (String × JsonForms) :=
  List.zipWith (fun field content => (field.1, library.Decodes types field.2 content))
    fields.entries contents

/-- Texts are read strictly: nothing is taken for a datum but the forms of its parts. -/
structure Reads : Prop where
  /-- The 128th bracket is refused, but not in values that are passed over. -/
  nestingLimit_eq : library.nestingLimit = 127
  /-- A text is read as the one value that it is, with nothing but space around it. -/
  read_eq_ok_iff {shape : Shape Name} {text : String} {datum : Datum}
      (paired : Json.IsPaired text.toList) :
    library.read types shape text = .ok datum ↔
      ∃ json : Json, json.WrittenAs text.toList ∧
        library.Decodes types shape datum library.nestingLimit json
  /-- A text is a string. -/
  text {datum : Datum} {levels : Nat} {json : Json} :
    library.Decodes types .text datum levels json ↔
      ∃ content, datum = .text content ∧ JsonForms.text content levels json
  /-- A natural number of 64 bits is a numeral without sign, point or exponent. -/
  natural {datum : Datum} {levels : Nat} {json : Json} :
    library.Decodes types .natural datum levels json ↔
      ∃ value, datum = .natural value ∧ JsonForms.natural value levels json
  /-- A list is an array of its items. -/
  list {item : Shape Name} {datum : Datum} {levels : Nat} {json : Json} :
    library.Decodes types (.list item) datum levels json ↔
      ∃ items, datum = .list items ∧
        JsonForms.list (items.map (library.Decodes types item)) levels json
  /-- A structure is an object or an array of its fields, each read as it is by itself. -/
  record {name : Name} {fields : Members (Shape Name)}
      (declared : types name = .record fields) {datum : Datum} {levels : Nat}
      {json : Json} :
    library.Decodes types (.named name) datum levels json ↔
      ∃ contents, contents.length = fields.entries.length ∧
        datum = .record (fields.names.zip contents) ∧
        JsonForms.record (library.fieldForms types fields contents) levels json
  /-- A variant is an object with its name for the only key. -/
  choice {name : Name} {variants : Members (Shape Name)}
      (declared : types name = .choice variants) {datum : Datum} {levels : Nat}
      {json : Json} :
    library.Decodes types (.named name) datum levels json ↔
      ∃ variant ∈ variants.entries, ∃ content, datum = .variant variant.1 content ∧
        JsonForms.variant variant.1 (library.Decodes types variant.2 content) levels json
  /-- A name without content is a string or the only key of an object. -/
  units {name : Name} {names : List String} (declared : types name = .units names)
      {datum : Datum} {levels : Nat} {json : Json} :
    library.Decodes types (.named name) datum levels json ↔
      ∃ unit ∈ names, datum = .unit unit ∧ JsonForms.unit unit levels json

end JsonLibrary

end LispFront
