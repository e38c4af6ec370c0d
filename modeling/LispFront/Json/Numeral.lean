/-! The grammar of JSON numerals: an optional minus sign, digits without a needless zero
in front, and perhaps a fraction and an exponent. `Json.numeral?` cuts the longest numeral
off a text and loses nothing (`append_of_numeral?`). -/

namespace LispFront.Json

def splitMinus : List Char → List Char × List Char
  | '-' :: rest => (['-'], rest)
  | text => ([], text)

def splitExponentSign : List Char → List Char × List Char
  | '-' :: rest => (['-'], rest)
  | '+' :: rest => (['+'], rest)
  | text => ([], text)

def digits? (text : List Char) : Option (List Char × List Char) :=
  match text.takeWhile Char.isDigit with
  | [] => none
  | digits => some (digits, text.dropWhile Char.isDigit)

/-- Cuts off the digits before the point. Only zero itself begins with a zero. -/
def whole? (text : List Char) : Option (List Char × List Char) :=
  match digits? text with
  | some ('0' :: _ :: _, _) => none
  | cut => cut

def fraction? : List Char → Option (List Char × List Char)
  | '.' :: rest => (digits? rest).map fun (digits, rest) => ('.' :: digits, rest)
  | text => some ([], text)

def exponent? : List Char → Option (List Char × List Char)
  | [] => some ([], [])
  | mark :: text =>
      if mark = 'e' ∨ mark = 'E' then
        let (sign, rest) := splitExponentSign text
        (digits? rest).map fun (digits, rest) => (mark :: (sign ++ digits), rest)
      else
        some ([], mark :: text)

/-- Cuts off a numeral, and gives what follows it. -/
def numeral? (text : List Char) : Option (List Char × List Char) := do
  let (minus, rest) := splitMinus text
  let (whole, rest) ← whole? rest
  let (fraction, rest) ← fraction? rest
  let (exponent, rest) ← exponent? rest
  some (minus ++ whole ++ fraction ++ exponent, rest)

private theorem append_splitMinus (text : List Char) :
    (splitMinus text).1 ++ (splitMinus text).2 = text := by
  unfold splitMinus
  split <;> rfl

private theorem append_splitExponentSign (text : List Char) :
    (splitExponentSign text).1 ++ (splitExponentSign text).2 = text := by
  unfold splitExponentSign
  split <;> rfl

private theorem append_of_digits? {text digits rest : List Char}
    (cut : digits? text = some (digits, rest)) : digits ++ rest = text ∧ digits ≠ [] := by
  unfold digits? at cut
  split at cut
  · cases cut
  · rename_i nonempty
    cases cut
    exact ⟨List.takeWhile_append_dropWhile, nonempty⟩

private theorem append_of_whole? {text whole rest : List Char}
    (cut : whole? text = some (whole, rest)) : whole ++ rest = text ∧ whole ≠ [] := by
  unfold whole? at cut
  split at cut
  · cases cut
  · exact append_of_digits? cut

private theorem append_of_fraction? {text fraction rest : List Char}
    (cut : fraction? text = some (fraction, rest)) : fraction ++ rest = text := by
  unfold fraction? at cut
  split at cut
  · simp only [Option.map_eq_some_iff, Prod.exists] at cut
    obtain ⟨digits, tail, cut, same⟩ := cut
    cases same
    rw [List.cons_append, (append_of_digits? cut).1]
  · cases cut
    rfl

private theorem append_of_exponent? {text exponent rest : List Char}
    (cut : exponent? text = some (exponent, rest)) : exponent ++ rest = text := by
  unfold exponent? at cut
  split at cut
  · cases cut
    rfl
  split at cut
  · simp only [Option.map_eq_some_iff, Prod.exists] at cut
    obtain ⟨digits, tail, cut, same⟩ := cut
    cases same
    rw [List.cons_append, List.append_assoc, (append_of_digits? cut).1,
      append_splitExponentSign]
  · cases cut
    rfl

theorem append_of_numeral? {text numeral rest : List Char}
    (cut : numeral? text = some (numeral, rest)) :
    numeral ++ rest = text ∧ numeral ≠ [] := by
  simp only [numeral?, Option.bind_eq_bind, Option.bind_eq_some_iff, Prod.exists] at cut
  obtain ⟨whole, _, wholeCut, fraction, _, fractionCut, exponent, _, exponentCut, same⟩ :=
    cut
  cases same
  have whole := append_of_whole? wholeCut
  constructor
  · simp only [List.append_assoc]
    rw [append_of_exponent? exponentCut, append_of_fraction? fractionCut, whole.1,
      append_splitMinus]
  · simp [whole.2]

end LispFront.Json
