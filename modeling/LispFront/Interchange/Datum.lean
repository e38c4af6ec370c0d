import LispFront.Json.Basic

/-! Data that are exchanged. A type is declared by the shape of its values, and a value is
handed over as a datum of that shape. -/

namespace LispFront

/-- The shape of a value. Types may refer to each other, so they go by names. -/
inductive Shape (Name : Type) where
  | text
  /-- A natural number of 64 bits. -/
  | natural
  | list (item : Shape Name)
  | named (name : Name)
deriving Repr

structure Members (α : Type) where
  entries : List (String × α)
  distinct : (entries.map Prod.fst).Nodup := by decide

namespace Members

def names {α : Type} (members : Members α) : List String :=
  members.entries.map Prod.fst

def find? {α : Type} (members : Members α) (name : String) : Option α :=
  (members.entries.find? (·.1 == name)).map Prod.snd

end Members

/-- What a name stands for: a structure with its fields, a choice of variants with a
content each, or one of several names without any. -/
inductive Declaration (Name : Type) where
  | record (fields : Members (Shape Name))
  | choice (variants : Members (Shape Name))
  | units (names : List String)

/-- What is handed over. Fields and variants go by their names. -/
inductive Datum where
  | text (content : String)
  | natural (value : Nat)
  | list (items : List Datum)
  | record (fields : List (String × Datum))
  | variant (name : String) (content : Datum)
  | unit (name : String)
deriving Repr

/-! ## As JSON

A structure is an object of its fields, a variant an object with one member, and a name
without content a string. -/

mutual

def Datum.toJson : Datum → Json
  | .text content => .ofString content
  | .natural value => .ofNat value
  | .list items => .array (itemsToJson items)
  | .record fields => .ofFields (fieldsToJson fields)
  | .variant name content => .ofFields [(name, content.toJson)]
  | .unit name => .ofString name

def itemsToJson : List Datum → List Json
  | [] => []
  | item :: items => item.toJson :: itemsToJson items

def fieldsToJson : List (String × Datum) → List (String × Json)
  | [] => []
  | (name, value) :: fields => (name, value.toJson) :: fieldsToJson fields

end

theorem itemsToJson_eq_map (items : List Datum) :
    itemsToJson items = items.map Datum.toJson := by
  induction items with
  | nil => rfl
  | cons item items induction => rw [itemsToJson, induction, List.map_cons]

theorem fieldsToJson_eq_map (fields : List (String × Datum)) :
    fieldsToJson fields = fields.map fun (name, value) => (name, value.toJson) := by
  induction fields with
  | nil => rfl
  | cons field fields induction => rw [fieldsToJson, induction, List.map_cons]

end LispFront
