/-! JSON values as they are written: members keep their order and may repeat, numerals
keep their spelling. -/

namespace LispFront

/-- What a string stands for: its characters, or nothing if it has an escaped surrogate
without its partner. -/
abbrev JsonText := Option String

inductive Json where
  | null
  | bool (value : Bool)
  | number (numeral : String)
  | string (text : JsonText)
  | array (items : List Json)
  | object (members : List (JsonText × Json))
deriving Repr

namespace Json

def ofString (text : String) : Json := .string (some text)

def ofNat (value : Nat) : Json := .number (toString value)

def ofFields (fields : List (String × Json)) : Json :=
  .object (fields.map fun (key, value) => (some key, value))

end Json

end LispFront
