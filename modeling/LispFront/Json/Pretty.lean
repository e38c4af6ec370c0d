import LispFront.Json.Quoted

/-! JSON over several lines: one item or member a line, indented by two spaces for each
bracket that is open. -/

namespace LispFront.Json

def newLine (depth : Nat) : String :=
  String.ofList ('\n' :: List.replicate (2 * depth) ' ')

def bracketed (opening closing : String) (depth : Nat) (parts : List String) : String :=
  match parts with
  | [] => opening ++ closing
  | parts =>
      opening ++ newLine (depth + 1) ++ ("," ++ newLine (depth + 1)).intercalate parts ++
        newLine depth ++ closing

mutual

/-- The lines of a value that begins at `depth`, without the indentation of the first. -/
def prettyAt (depth : Nat) : Json → String
  | .null => "null"
  | .bool true => "true"
  | .bool false => "false"
  | .number numeral => numeral
  | .string text => quote text
  | .array items => bracketed "[" "]" depth (prettyItems (depth + 1) items)
  | .object members => bracketed "\x7b" "\x7d" depth (prettyMembers (depth + 1) members)

def prettyItems (depth : Nat) : List Json → List String
  | [] => []
  | item :: items => prettyAt depth item :: prettyItems depth items

def prettyMembers (depth : Nat) : List (JsonText × Json) → List String
  | [] => []
  | (key, value) :: members =>
      (quote key ++ ": " ++ prettyAt depth value) :: prettyMembers depth members

end

def pretty (value : Json) : String := prettyAt 0 value

end LispFront.Json
