import Mathlib.Data.List.Forall2
import LispFront.Interchange.Datum
import LispFront.Syntax.Basic

/-! # JSON forms

Which values a thing may be exchanged as, said without a reader: the fields of a structure
in any order and beside others, or as an array in their own order, and a name without
content by itself or as the only key of an object. A form keeps to the number of brackets
that may be open at once, but for what stands under names that no structure has. -/

namespace LispFront

def Json.member (field : String × Json) : JsonText × Json :=
  (some field.1, field.2)

/-- The values that a thing may be exchanged as, where so many brackets may still be
opened. -/
abbrev JsonForms := Nat → Json → Prop

namespace JsonForms

inductive text (content : String) : JsonForms
  | string {levels : Nat} : text content levels (.string (some content))

/-- A number below `2 ^ 64` in digits alone. -/
inductive natural (value : Nat) : JsonForms
  | digits {levels : Nat} {numeral : String}
      (digits : ∀ c ∈ numeral.toList, c.isDigit = true)
      (stands : Nat.ofDigitChars 10 numeral.toList 0 = value)
      (fits : value < UInt64.size) :
      natural value levels (.number numeral)

inductive list (items : List JsonForms) : JsonForms
  | array {levels : Nat} {values : List Json}
      (each : List.Forall₂ (fun forms value => forms levels value) items values) :
      list items (levels + 1) (.array values)

/-- The fields of a structure. In an object their members come in any order among
`others`, which have other names and any values at all. -/
inductive record (fields : List (String × JsonForms)) : JsonForms
  | array {levels : Nat} {values : List Json}
      (each : List.Forall₂ (fun field value => field.2 levels value) fields values) :
      record fields (levels + 1) (.array values)
  | object {levels : Nat} {members : List (JsonText × Json)} {values : List Json}
      {others : List (String × Json)}
      (each : List.Forall₂ (fun field value => field.2 levels value) fields values)
      (foreign : ∀ other ∈ others, other.1 ∉ fields.map Prod.fst)
      (arranged : members.Perm
        (((fields.map Prod.fst).zip values ++ others).map Json.member)) :
      record fields (levels + 1) (.object members)

inductive variant (name : String) (content : JsonForms) : JsonForms
  | object {levels : Nat} {value : Json} (inside : content levels value) :
      variant name content (levels + 1) (.object [(some name, value)])

/-- A name without content. -/
inductive unit (name : String) : JsonForms
  | string {levels : Nat} : unit name levels (.string (some name))
  | object {levels : Nat} : unit name (levels + 1) (.object [(some name, .null)])

end JsonForms

/-! ## Programs -/

def TokenKind.forms (kind : TokenKind) : JsonForms :=
  .unit kind.spelling

def Token.forms (token : Token) : JsonForms :=
  .record [("kind", token.kind.forms), ("text", .text token.text),
    ("line", .natural token.position.line), ("column", .natural token.position.column)]

def Identifier.forms (identifier : Identifier) : JsonForms :=
  .record [("token", identifier.token.forms), ("name", .text identifier.name)]

mutual

def Expression.forms : Expression → JsonForms
  | .number token value =>
      .variant "Number" (.record [("token", token.forms), ("value", .text value)])
  | .string token value =>
      .variant "String" (.record [("token", token.forms), ("value", .text value)])
  | .identifier name => .variant "Identifier" name.forms
  | .array opening elements =>
      .variant "Array" (.record [("token", opening.forms),
        ("elements", .list (formsAll elements))])
  | .call opening function arguments =>
      .variant "Call" (.record [("token", opening.forms), ("function", function.forms),
        ("args", .list (formsAll arguments))])
  | .function opening name parameters body =>
      .variant "Function" (.record [("token", opening.forms), ("name", name.forms),
        ("params", .list (parameters.map Identifier.forms)),
        ("body", .list (formsAll body))])

def formsAll : List Expression → List JsonForms
  | [] => []
  | expression :: rest => expression.forms :: formsAll rest

end

def Program.forms (program : Program) : JsonForms :=
  .record [("expressions", .list (formsAll program.expressions))]

end LispFront
