import LispFront.Json.Symbol

/-! The reading of a JSON text. Arrays and objects that are open stand on a stack,
innermost first, so that values may nest to any depth. -/

namespace LispFront.Json

inductive Frame where
  | array (items : Array Json)
  | object (members : Array (JsonText × Json)) (key : JsonText)
deriving Repr

inductive Expectation where
  | value
  /-- A value, or the end of the array that has just been opened. -/
  | firstItem
  /-- A key, or the end of the object that has just been opened. -/
  | firstKey
  | key (members : Array (JsonText × Json))
  | colon (members : Array (JsonText × Json)) (key : JsonText)
  /-- What follows a complete value: a comma, a closing bracket, or the end of the
  text. -/
  | separator (value : Json)
deriving Repr

structure Reader where
  frames : List Frame
  expectation : Expectation
deriving Repr

namespace Reader

def initial : Reader := ⟨[], .value⟩

def readValue? (frames : List Frame) : Symbol → Option Reader
  | .null => some ⟨frames, .separator .null⟩
  | .bool value => some ⟨frames, .separator (.bool value)⟩
  | .number numeral => some ⟨frames, .separator (.number numeral)⟩
  | .string text => some ⟨frames, .separator (.string text)⟩
  | .openArray => some ⟨.array #[] :: frames, .firstItem⟩
  | .openObject => some ⟨frames, .firstKey⟩
  | _ => none

def readSeparator? (value : Json) : List Frame → Symbol → Option Reader
  | .array items :: frames, .comma => some ⟨.array (items.push value) :: frames, .value⟩
  | .array items :: frames, .closeArray =>
      some ⟨frames, .separator (.array (items.push value).toList)⟩
  | .object members key :: frames, .comma =>
      some ⟨frames, .key (members.push (key, value))⟩
  | .object members key :: frames, .closeObject =>
      some ⟨frames, .separator (.object (members.push (key, value)).toList)⟩
  | _, _ => none

/-- Reads a symbol in its place, or nothing if it is out of place. -/
def step? (reader : Reader) (symbol : Symbol) : Option Reader :=
  match reader with
  | ⟨frames, .value⟩ => readValue? frames symbol
  | ⟨frames, .firstItem⟩ =>
      match symbol, frames with
      | .closeArray, .array _ :: frames => some ⟨frames, .separator (.array [])⟩
      | symbol, frames => readValue? frames symbol
  | ⟨frames, .firstKey⟩ =>
      match symbol with
      | .closeObject => some ⟨frames, .separator (.object [])⟩
      | .string key => some ⟨frames, .colon #[] key⟩
      | _ => none
  | ⟨frames, .key members⟩ =>
      match symbol with
      | .string key => some ⟨frames, .colon members key⟩
      | _ => none
  | ⟨frames, .colon members key⟩ =>
      match symbol with
      | .colon => some ⟨.object members key :: frames, .value⟩
      | _ => none
  | ⟨frames, .separator value⟩ => readSeparator? value frames symbol

def value? : Reader → Option Json
  | ⟨[], .separator value⟩ => some value
  | _ => none

def run? (reader : Reader) (text : List Char) : Option Reader :=
  match begins : text.dropWhile isSpace with
  | [] => some reader
  | first :: rest =>
      match reading : Symbol.read? first rest with
      | none => none
      | some (symbol, following) =>
          have : following.length < text.length := by
            have skipped := (List.dropWhile_suffix (l := text) isSpace).length_le
            have shorter := Symbol.length_le_of_read? reading
            rw [begins, List.length_cons] at skipped
            omega
          match reader.step? symbol with
          | none => none
          | some reader => run? reader following
termination_by text.length

end Reader

/-- Reads a text that is one JSON value, with nothing but space around it. -/
def ofText? (text : String) : Option Json :=
  (Reader.initial.run? text.toList).bind Reader.value?

end LispFront.Json
