import LispFront.Interchange.Program
import LispFront.Json.Pretty
import LispFront.Json.Reader
import LispFront.Numeral.Decimal

/-! A library for JSON that reads a text as a value before it looks for a datum in it.
What is read is more than what is written: fields may come in any order and beside others,
or as an array in their own order, and a name without content may be the only key of an
object. Values under keys that no structure has are passed over and may nest to any
depth. -/

namespace LispFront

namespace Json

/-! ## Parts -/

def text? : Json → Option String
  | .string text => text
  | _ => none

def natural? : Json → Option Nat
  | .number numeral =>
      let value := digitsValue numeral.toList
      if numeral.toList.all Char.isDigit ∧ value < UInt64.size then some value else none
  | _ => none

def field? (members : List (JsonText × Json)) (name : String) : Option Json :=
  match members.filter fun (key, _) => key == some name with
  | [(_, value)] => some value
  | _ => none

def fields? (names : List String) : Json → Option (List Json)
  | .array items => if items.length = names.length then some items else none
  | .object members =>
      if members.all fun (key, _) => key.isSome then names.mapM (field? members) else none
  | _ => none

def items? {α : Type} (item? : Json → Option α) : Json → Option (List α)
  | .array items => items.mapM item?
  | _ => none

/-! ## Data -/

section

variable {Name : Type} (inside? : Shape Name → Json → Option Datum)

def record? (fields : Members (Shape Name)) (json : Json) : Option Datum := do
  let values ← json.fields? fields.names
  let contents ← (fields.entries.zip values).mapM fun pair => inside? pair.1.2 pair.2
  some (.record (fields.names.zip contents))

def variant? (variants : Members (Shape Name)) : Json → Option Datum
  | .object [(some name, content)] => do
      some (.variant name (← inside? (← variants.find? name) content))
  | _ => none

end

/-- Reads a name that has no content, as an object only where there is room for one. -/
def unit? (room : Bool) (names : List String) : Json → Option Datum
  | .string (some name) => if name ∈ names then some (.unit name) else none
  | .object [(some name, .null)] => if room ∧ name ∈ names then
      some (.unit name) else none
  | _ => none

/-- Reads a datum with the given reader for what is inside its bracket, if it may have
one. -/
def decodeWith? {Name : Type} (types : Name → Declaration Name)
    (inside? : Option (Shape Name → Json → Option Datum)) :
    Shape Name → Json → Option Datum
  | .text, json => json.text?.map .text
  | .natural, json => json.natural?.map .natural
  | .list item, json => do (json.items? ((← inside?) item)).map .list
  | .named name, json =>
      match types name with
      | .record fields => do json.record? (← inside?) fields
      | .choice variants => do json.variant? (← inside?) variants
      | .units names => json.unit? inside?.isSome names

/-- Reads a datum that opens no more brackets than `levels`. -/
def decode? {Name : Type} (types : Name → Declaration Name) :
    Nat → Shape Name → Json → Option Datum
  | 0 => decodeWith? types none
  | levels + 1 => decodeWith? types (some (decode? types levels))

end Json

namespace JsonLibrary

def standard : JsonLibrary where
  nestingLimit := 127
  print datum := .ok datum.toJson.pretty
  read types shape text :=
    ((Json.ofText? text).bind (Json.decode? types 127 shape)).elim
      (.error "no value of the type") .ok
  decode? types shape levels json := Json.decode? types levels shape json

end JsonLibrary

def Program.toJsonText (program : Program) : String :=
  program.toDatum.toJson.pretty

end LispFront
