import LispFront.Json.Symbol

/-! # The grammar of JSON

How a value may be written, said without the reader: a numeral by its parts, a string
character by character, and a value as its symbols in order, with any space between them
(`Json.WrittenAs`). -/

namespace LispFront.Json

/-! ## Numerals -/

structure IsDigits (text : List Char) : Prop where
  digits : ∀ c ∈ text, c.isDigit = true
  nonempty : text ≠ []

inductive IsWhole : List Char → Prop
  | zero : IsWhole ['0']
  | positive {first : Char} {rest : List Char} (digits : IsDigits (first :: rest))
      (nonzero : first ≠ '0') :
      IsWhole (first :: rest)

inductive IsFraction : List Char → Prop
  | absent : IsFraction []
  | present {digits : List Char} (isDigits : IsDigits digits) : IsFraction ('.' :: digits)

inductive IsExponent : List Char → Prop
  | absent : IsExponent []
  | present {mark : Char} {sign digits : List Char} (marks : mark = 'e' ∨ mark = 'E')
      (signs : sign = [] ∨ sign = ['-'] ∨ sign = ['+']) (isDigits : IsDigits digits) :
      IsExponent (mark :: (sign ++ digits))

inductive IsNumeral : List Char → Prop
  | parts {minus whole fraction exponent : List Char} (signs : minus = [] ∨ minus = ['-'])
      (isWhole : IsWhole whole) (isFraction : IsFraction fraction)
      (isExponent : IsExponent exponent) :
      IsNumeral (minus ++ whole ++ fraction ++ exponent)

/-! ## Strings -/

def letterEscapes : List (Char × Char) :=
  [('"', '"'), ('\\', '\\'), ('/', '/'), ('b', '\x08'), ('f', '\x0c'), ('n', '\n'),
    ('r', '\r'), ('t', '\t')]

def IsHexDigit (c : Char) (value : Nat) : Prop :=
  value < 16 ∧ (c = value.digitChar ∨ c = value.digitChar.toUpper)

inductive Hexadecimal : List Char → Nat → Prop
  | digits {c₁ c₂ c₃ c₄ : Char} {d₁ d₂ d₃ d₄ : Nat} (first : IsHexDigit c₁ d₁)
      (second : IsHexDigit c₂ d₂) (third : IsHexDigit c₃ d₃) (fourth : IsHexDigit c₄ d₄) :
      Hexadecimal [c₁, c₂, c₃, c₄] (((d₁ * 16 + d₂) * 16 + d₃) * 16 + d₄)

/-- The codes that are no characters and stand for one in pairs. -/
def IsSurrogate (code : Nat) : Prop :=
  0xD800 ≤ code ∧ code ≤ 0xDFFF

inductive StringUnit.WrittenAs : StringUnit → List Char → Prop
  | plain {c : Char} (quote : c ≠ '"') (backslash : c ≠ '\\')
      (printable : 0x20 ≤ c.toNat) :
      WrittenAs (.character c) [c]
  | letter {letter c : Char} (escape : (letter, c) ∈ letterEscapes) :
      WrittenAs (.character c) ['\\', letter]
  | numbered {c : Char} {digits : List Char} (code : Hexadecimal digits c.toNat) :
      WrittenAs (.character c) ('\\' :: 'u' :: digits)
  | surrogate {digits : List Char} {code : Nat} (hexadecimal : Hexadecimal digits code)
      (isSurrogate : IsSurrogate code) :
      WrittenAs (.surrogate code) ('\\' :: 'u' :: digits)

inductive Inscribed : List StringUnit → List Char → Prop
  | nil : Inscribed [] []
  | cons {unit : StringUnit} {units : List StringUnit} {first rest : List Char}
      (written : unit.WrittenAs first) (later : Inscribed units rest) :
      Inscribed (unit :: units) (first ++ rest)

/-- The characters that units make when every surrogate has its partner: a leading one in
front of a trailing one. -/
inductive Joins : List StringUnit → List Char → Prop
  | nil : Joins [] []
  | character {c : Char} {units : List StringUnit} {characters : List Char}
      (later : Joins units characters) : Joins (.character c :: units) (c :: characters)
  | pair {leading trailing : Nat} {c : Char} {units : List StringUnit}
      {characters : List Char} (leads : leading < 0xDC00) (trails : 0xDC00 ≤ trailing)
      (code : c.toNat = 0x10000 + (leading - 0xD800) * 0x400 + (trailing - 0xDC00))
      (later : Joins units characters) :
      Joins (.surrogate leading :: .surrogate trailing :: units) (c :: characters)

/-! ## Symbols -/

/-- A string whose surrogates are not all in pairs is one as well, and stands for
nothing. -/
inductive Symbol.WrittenAs : Symbol → List Char → Prop
  | openObject : WrittenAs .openObject ['{']
  | closeObject : WrittenAs .closeObject ['}']
  | openArray : WrittenAs .openArray ['[']
  | closeArray : WrittenAs .closeArray [']']
  | comma : WrittenAs .comma [',']
  | colon : WrittenAs .colon [':']
  | null : WrittenAs .null ['n', 'u', 'l', 'l']
  | true : WrittenAs (.bool true) ['t', 'r', 'u', 'e']
  | false : WrittenAs (.bool false) ['f', 'a', 'l', 's', 'e']
  | number {numeral : String} (isNumeral : IsNumeral numeral.toList) :
      WrittenAs (.number numeral) numeral.toList
  | string {text : String} {units : List StringUnit} {written : List Char}
      (inscribed : Inscribed units written) (joins : Joins units text.toList) :
      WrittenAs (.string (some text)) ('"' :: (written ++ ['"']))
  | unpaired {units : List StringUnit} {written : List Char}
      (inscribed : Inscribed units written)
      (apart : ∀ characters, ¬ Joins units characters) :
      WrittenAs (.string none) ('"' :: (written ++ ['"']))

inductive Written : List Symbol → List Char → Prop
  | nil {space : List Char} (blank : ∀ c ∈ space, isSpace c = true) : Written [] space
  | cons {space first rest : List Char} {symbol : Symbol} {symbols : List Symbol}
      (blank : ∀ c ∈ space, isSpace c = true) (written : symbol.WrittenAs first)
      (later : Written symbols rest) :
      Written (symbol :: symbols) (space ++ (first ++ rest))

/-! ## Values -/

def commaSeparated (parts : List (List Symbol)) : List Symbol :=
  [Symbol.comma].intercalate parts

mutual

def symbols : Json → List Symbol
  | .null => [.null]
  | .bool value => [.bool value]
  | .number numeral => [.number numeral]
  | .string text => [.string text]
  | .array items => .openArray :: (commaSeparated (itemSymbols items) ++ [.closeArray])
  | .object members =>
      .openObject :: (commaSeparated (memberSymbols members) ++ [.closeObject])

def itemSymbols : List Json → List (List Symbol)
  | [] => []
  | item :: items => item.symbols :: itemSymbols items

def memberSymbols : List (JsonText × Json) → List (List Symbol)
  | [] => []
  | (key, value) :: members =>
      (.string key :: .colon :: value.symbols) :: memberSymbols members

end

/-- The text is the value, with nothing but space around it. -/
def WrittenAs (value : Json) (text : List Char) : Prop :=
  Written value.symbols text

end LispFront.Json
