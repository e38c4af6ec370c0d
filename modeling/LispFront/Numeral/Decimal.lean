import LispFront.Numeral.Binary64

/-! Decimal numerals: their grammar, and the number each of them stands for. -/

namespace LispFront

def digitsValue (digits : List Char) : Nat :=
  digits.foldl (fun value digit => 10 * value + (digit.toNat - '0'.toNat)) 0

structure Decimal where
  negative : Bool
  significand : Nat
  exponent : Int
deriving DecidableEq, Repr

/-- The number nearest to a decimal. The largest finite number is below `10 ^ 309` and
half of the smallest above `10 ^ -324`, so an exponent far beyond them is decided without
computing its power. -/
def Decimal.toBinary64 (decimal : Decimal) : Binary64 :=
  -- A number of `n` binary digits has no more than `n / 3 + 1` decimal digits.
  let digits : Nat := decimal.significand.log2 / 3 + 1
  if decimal.significand = 0 then .zero decimal.negative
  else if 310 ≤ decimal.exponent then .infinity decimal.negative
  else if decimal.exponent + digits ≤ -330 then .zero decimal.negative
  else if 0 ≤ decimal.exponent then
    .ofQuotient decimal.negative
      (decimal.significand * Nat.pow 10 decimal.exponent.toNat) 1
  else
    .ofQuotient decimal.negative decimal.significand
      (Nat.pow 10 (-decimal.exponent).toNat)

inductive Numeral where
  | nan
  | infinity (negative : Bool)
  | decimal (value : Decimal)
deriving DecidableEq, Repr

namespace Numeral

def toBinary64 : Numeral → Binary64
  | nan => .nan
  | infinity negative => .infinity negative
  | decimal value => value.toBinary64

/-! ## Grammar

A sign may come first. Then come digits with a point among them or at either end, or none,
and perhaps an exponent; or one of three words in letters of either case. -/

def splitSign : List Char → Bool × List Char
  | '-' :: rest => (true, rest)
  | '+' :: rest => (false, rest)
  | text => (false, text)

def exponent? : List Char → Option Int
  | [] => some 0
  | mark :: text =>
      let (negative, digits) := splitSign text
      if (mark = 'e' ∨ mark = 'E') ∧ digits ≠ [] ∧ digits.all Char.isDigit then
        some (if negative then -digitsValue digits else digitsValue digits)
      else
        none

def splitFraction : List Char → List Char × List Char
  | '.' :: rest => (rest.takeWhile Char.isDigit, rest.dropWhile Char.isDigit)
  | text => ([], text)

def decimal? (negative : Bool) (text : List Char) : Option Decimal :=
  let whole := text.takeWhile Char.isDigit
  let (fraction, rest) := splitFraction (text.dropWhile Char.isDigit)
  if whole = [] ∧ fraction = [] then
    none
  else
    (exponent? rest).map fun exponent =>
      ⟨negative, digitsValue (whole ++ fraction), exponent - fraction.length⟩

def word? (negative : Bool) (text : List Char) : Option Numeral :=
  let word := String.ofList (text.map Char.toLower)
  if word = "nan" then some .nan
  else if word = "inf" ∨ word = "infinity" then some (.infinity negative)
  else none

/-- Reads a numeral that takes up the whole text. -/
def ofText? (text : String) : Option Numeral :=
  let (negative, magnitude) := splitSign text.toList
  match word? negative magnitude with
  | some word => some word
  | none => (decimal? negative magnitude).map .decimal

/-- A point needs a digit beside it, on one side at least. -/
example :
    ofText? "-5." = some (.decimal ⟨true, 5, 0⟩) ∧
      ofText? ".5e1" = some (.decimal ⟨false, 5, 0⟩) ∧ ofText? "." = none ∧
        ofText? "1.2.3" = none ∧ ofText? "+InF" = some (.infinity false) := by
  decide +kernel

end Numeral

end LispFront
