import LispFront.Json.Numeral
import LispFront.Json.Quoted

/-! The symbols that a JSON text is made of, and the reading of one of them. -/

namespace LispFront.Json

inductive Symbol where
  | openObject
  | closeObject
  | openArray
  | closeArray
  | comma
  | colon
  | null
  | bool (value : Bool)
  | number (numeral : String)
  | string (text : JsonText)
deriving DecidableEq, Repr

def isSpace (c : Char) : Bool :=
  c = ' ' || c = '\t' || c = '\n' || c = '\r'

namespace Symbol

def ofMark? : Char → Option Symbol
  | '{' => some openObject
  | '}' => some closeObject
  | '[' => some openArray
  | ']' => some closeArray
  | ',' => some comma
  | ':' => some colon
  | _ => none

def word? : List Char → Option (Symbol × List Char)
  | 'n' :: 'u' :: 'l' :: 'l' :: rest => some (null, rest)
  | 't' :: 'r' :: 'u' :: 'e' :: rest => some (bool true, rest)
  | 'f' :: 'a' :: 'l' :: 's' :: 'e' :: rest => some (bool false, rest)
  | _ => none

def read? (first : Char) (rest : List Char) : Option (Symbol × List Char) :=
  match ofMark? first with
  | some symbol => some (symbol, rest)
  | none =>
      if first = '"' then
        (units? rest).map fun (units, following) =>
          (.string ((joinSurrogates? units).map String.ofList), following)
      else if first = '-' ∨ first.isDigit then
        (numeral? (first :: rest)).map fun (numeral, following) =>
          (.number (String.ofList numeral), following)
      else
        word? (first :: rest)

private theorem length_lt_of_word? {text following : List Char} {symbol : Symbol}
    (read : word? text = some (symbol, following)) : following.length < text.length := by
  unfold word? at read
  split at read
  · cases read
    simp
    omega
  · cases read
    simp
    omega
  · cases read
    simp
    omega
  · cases read

theorem length_le_of_read? {first : Char} {rest following : List Char} {symbol : Symbol}
    (read : read? first rest = some (symbol, following)) :
    following.length ≤ rest.length := by
  unfold read? at read
  split at read
  · cases read
    exact Nat.le_refl _
  split at read
  · simp only [Option.map_eq_some_iff, Prod.exists] at read
    obtain ⟨units, tail, reads, same⟩ := read
    cases same
    exact Nat.le_of_lt (length_lt_of_units? reads)
  split at read
  · simp only [Option.map_eq_some_iff, Prod.exists] at read
    obtain ⟨numeral, tail, cut, same⟩ := read
    cases same
    have parts := append_of_numeral? cut
    have whole := congrArg List.length parts.1
    have written := List.length_pos_iff.mpr parts.2
    simp only [List.length_append, List.length_cons] at whole
    omega
  · exact Nat.le_of_lt_succ (length_lt_of_word? read)

end Symbol

end LispFront.Json
