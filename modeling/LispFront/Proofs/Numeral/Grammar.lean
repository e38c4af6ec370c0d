import Mathlib.Data.List.TakeWhile
import LispFront.Numeral.Decimal
import LispFront.Proofs.Token.Lexeme

/-! # The grammar of numbers

Which texts are decimals and which are words, said without the reader. The reader gives
every decimal its parts (`ofText?_of_written`) and refuses only what is neither
(`ofText?_eq_none_iff`). -/

namespace LispFront.Numeral

inductive IsSign : Bool → List Char → Prop
  | absent : IsSign false []
  | plus : IsSign false ['+']
  | minus : IsSign true ['-']

/-- Digits with a point between them, at either end or not at all. -/
inductive IsSignificand : List Char → List Char → List Char → Prop
  | whole {whole : List Char} : IsSignificand whole [] whole
  | point {whole fraction : List Char} :
      IsSignificand whole fraction (whole ++ '.' :: fraction)

inductive IsExponent : Int → List Char → Prop
  | absent : IsExponent 0 []
  | present {mark : Char} {negative : Bool} {sign digits : List Char} {exponent : Int}
      (letter : mark = 'e' ∨ mark = 'E') (signed : IsSign negative sign)
      (digit : ∀ c ∈ digits, c.isDigit = true) (nonempty : digits ≠ [])
      (stands : (if negative then -(Nat.ofDigitChars 10 digits 0 : Int)
        else Nat.ofDigitChars 10 digits 0) = exponent) :
      IsExponent exponent (mark :: (sign ++ digits))

/-- What a decimal is written with: its sign, the digits on either side of the point and
its exponent. -/
structure Parts where
  negative : Bool
  whole : List Char
  fraction : List Char
  exponent : Int

namespace Parts

/-- A sign if any, a digit at least, and an exponent if any. -/
inductive WrittenAs (parts : Parts) : List Char → Prop
  | text {sign significand exponent : List Char} (signed : IsSign parts.negative sign)
      (digits : IsSignificand parts.whole parts.fraction significand)
      (digit : ∀ c ∈ parts.whole ++ parts.fraction, c.isDigit = true)
      (nonempty : parts.whole ++ parts.fraction ≠ [])
      (scaled : IsExponent parts.exponent exponent) :
      WrittenAs parts (sign ++ (significand ++ exponent))

def decimal (parts : Parts) : Decimal :=
  ⟨parts.negative, digitsValue (parts.whole ++ parts.fraction),
    parts.exponent - parts.fraction.length⟩

end Parts

def IsWord (text : List Char) : Prop :=
  text.map Char.toLower ∈ ["inf".toList, "infinity".toList, "nan".toList]

/-- A word, with a sign or without. -/
inductive IsSignedWord : List Char → Prop
  | text {negative : Bool} {sign word : List Char} (signed : IsSign negative sign)
      (named : IsWord word) :
      IsSignedWord (sign ++ word)

/-! ## Signs -/

private theorem exists_isSign (text : List Char) :
    ∃ sign, IsSign (splitSign text).1 sign ∧ text = sign ++ (splitSign text).2 := by
  unfold splitSign
  split
  · exact ⟨['-'], .minus, rfl⟩
  · exact ⟨['+'], .plus, rfl⟩
  · exact ⟨[], .absent, rfl⟩

def Unsigned (text : List Char) : Prop :=
  ∀ c ∈ text.head?, c ≠ '-' ∧ c ≠ '+'

theorem splitSign_append {negative : Bool} {sign text : List Char}
    (signed : IsSign negative sign) (unsigned : Unsigned text) :
    splitSign (sign ++ text) = (negative, text) := by
  cases signed with
  | absent =>
      cases text with
      | nil => rfl
      | cons c rest =>
          obtain ⟨minus, plus⟩ := unsigned c rfl
          simp [splitSign, minus, plus]
  | plus => rfl
  | minus => rfl

theorem unsigned_of_isDigit {c : Char} {rest : List Char} (digit : c.isDigit = true) :
    Unsigned (c :: rest) := by
  intro first same
  cases same
  constructor
  all_goals
    rintro rfl
    exact absurd digit (by decide)

/-! ## Exponents -/

private theorem exponent?_cons (mark : Char) (text : List Char) :
    exponent? (mark :: text) =
      if (mark = 'e' ∨ mark = 'E') ∧ (splitSign text).2 ≠ [] ∧
        (splitSign text).2.all Char.isDigit = true then
          some
            (if (splitSign text).1 then
              -(digitsValue (splitSign text).2 : Int) else digitsValue (splitSign text).2)
      else none :=
  rfl

theorem exponent?_eq_some_iff {text : List Char} {exponent : Int} :
    exponent? text = some exponent ↔ IsExponent exponent text := by
  constructor
  · intro read
    cases text with
    | nil =>
        cases read
        exact .absent
    | cons mark text =>
        rw [exponent?_cons, Option.ite_none_right_eq_some] at read
        obtain ⟨sign, signed, cut⟩ := exists_isSign text
        generalize splitSign text = parts at read signed cut
        obtain ⟨negative, digits⟩ := parts
        obtain ⟨⟨letter, nonempty, digit⟩, same⟩ := read
        cases same
        rw [cut]
        exact .present letter signed (List.all_eq_true.mp digit) nonempty rfl
  · rintro (_ | ⟨letter, signed, digit, nonempty, rfl⟩)
    · rfl
    · rename_i mark negative sign digits
      have unsigned : Unsigned digits := by
        obtain ⟨first, rest, rfl⟩ := List.exists_cons_of_ne_nil nonempty
        exact unsigned_of_isDigit (digit first List.mem_cons_self)
      rw [exponent?_cons, splitSign_append signed unsigned]
      exact if_pos ⟨letter, nonempty, List.all_eq_true.mpr digit⟩

/-! ## Decimals without their signs -/

theorem IsExponent.stops {exponent : Int} {text : List Char}
    (scaled : IsExponent exponent text) :
    Lexeme.Stops Char.isDigit text ∧ '.' ∉ text.head? := by
  rcases scaled with _ | ⟨rfl | rfl, signed, digit, nonempty, stands⟩
  · exact ⟨by simp [Lexeme.Stops], by simp⟩
  · exact ⟨Lexeme.stops_cons _ (by decide), by simp⟩
  · exact ⟨Lexeme.stops_cons _ (by decide), by simp⟩

private theorem splitFraction_of_ne {text : List Char} (apart : '.' ∉ text.head?) :
    splitFraction text = ([], text) := by
  unfold splitFraction
  split
  · simp at apart
  · rfl

def splitDigits (text : List Char) : List Char × List Char × List Char :=
  (text.takeWhile Char.isDigit, splitFraction (text.dropWhile Char.isDigit))

private theorem splitDigits_append {whole fraction significand rest : List Char}
    (digits : IsSignificand whole fraction significand)
    (digit : ∀ c ∈ whole ++ fraction, c.isDigit = true)
    (stops : Lexeme.Stops Char.isDigit rest) (apart : '.' ∉ rest.head?) :
    splitDigits (significand ++ rest) = (whole, fraction, rest) := by
  rcases List.forall_mem_append.mp digit with ⟨wholeDigit, fractionDigit⟩
  cases digits with
  | whole =>
      rw [splitDigits, stops.takeWhile_append wholeDigit,
        stops.dropWhile_append wholeDigit, splitFraction_of_ne apart]
  | point =>
      have pointStops : Lexeme.Stops Char.isDigit ('.' :: (fraction ++ rest)) :=
        Lexeme.stops_cons _ (by decide)
      rw [splitDigits, List.append_assoc, List.cons_append,
        pointStops.takeWhile_append wholeDigit, pointStops.dropWhile_append wholeDigit,
        splitFraction, stops.takeWhile_append fractionDigit,
        stops.dropWhile_append fractionDigit]

private theorem exists_isSignificand (text : List Char) :
    ∃ significand, IsSignificand (splitDigits text).1 (splitDigits text).2.1 significand ∧
      (∀ c ∈ (splitDigits text).1 ++ (splitDigits text).2.1, c.isDigit = true) ∧
      text = significand ++ (splitDigits text).2.2 := by
  have whole := List.takeWhile_append_dropWhile (p := Char.isDigit) (l := text)
  have digit : ∀ c ∈ text.takeWhile Char.isDigit, c.isDigit = true :=
    fun c => List.mem_takeWhile_imp
  unfold splitDigits splitFraction
  split
  · rename_i rest begins
    refine ⟨_, .point,
      List.forall_mem_append.mpr ⟨digit, fun c => List.mem_takeWhile_imp⟩, ?_⟩
    rw [List.append_assoc, List.cons_append, List.takeWhile_append_dropWhile,
      ← begins, whole]
  · refine ⟨_, .whole, ?_, whole.symm⟩
    rwa [List.append_nil]

private theorem decimal?_eq (negative : Bool) (text : List Char) :
    decimal? negative text =
      if (splitDigits text).1 = [] ∧ (splitDigits text).2.1 = [] then none
      else (exponent? (splitDigits text).2.2).map fun exponent =>
        (Parts.mk negative (splitDigits text).1 (splitDigits text).2.1
          exponent).decimal :=
  rfl

private theorem decimal?_append {parts : Parts} {significand exponent : List Char}
    (digits : IsSignificand parts.whole parts.fraction significand)
    (digit : ∀ c ∈ parts.whole ++ parts.fraction, c.isDigit = true)
    (nonempty : parts.whole ++ parts.fraction ≠ [])
    (scaled : IsExponent parts.exponent exponent) :
    decimal? parts.negative (significand ++ exponent) = some parts.decimal := by
  have cut := splitDigits_append digits digit scaled.stops.1 scaled.stops.2
  rw [decimal?_eq, cut, if_neg (by rwa [← List.append_eq_nil_iff]),
    exponent?_eq_some_iff.mpr scaled]
  rfl

private theorem exists_parts_of_decimal? {negative : Bool} {text : List Char}
    {decimal : Decimal} (read : decimal? negative text = some decimal) {sign : List Char}
    (signed : IsSign negative sign) :
    ∃ parts : Parts, parts.WrittenAs (sign ++ text) := by
  rw [decimal?_eq, Option.ite_none_left_eq_some] at read
  obtain ⟨nonempty, read⟩ := read
  obtain ⟨exponent, scaled, -⟩ := Option.map_eq_some_iff.mp read
  obtain ⟨significand, digits, digit, cut⟩ := exists_isSignificand text
  have written :
      (Parts.mk negative (splitDigits text).1 (splitDigits text).2.1 exponent).WrittenAs
        (sign ++ (significand ++ (splitDigits text).2.2)) :=
    .text signed digits digit (by rwa [Ne, List.append_eq_nil_iff])
      (exponent?_eq_some_iff.mp scaled)
  rw [← cut] at written
  exact ⟨_, written⟩

/-! ## Words -/

theorem word?_isSome_iff {negative : Bool} {text : List Char} :
    (word? negative text).isSome = true ↔ IsWord text := by
  have same (word : String) : String.ofList (text.map Char.toLower) = word ↔
      text.map Char.toLower = word.toList := by
    rw [← String.toList_inj, String.toList_ofList]
  simp only [word?, same, IsWord, List.mem_cons, List.not_mem_nil, or_false]
  split
  · rename_i nan
    exact ⟨fun _ => .inr (.inr nan), fun _ => rfl⟩
  rename_i notNan
  split
  · rename_i infinite
    exact ⟨fun _ => infinite.imp_right .inl, fun _ => rfl⟩
  · rename_i finite
    refine ⟨nofun, fun named => absurd named ?_⟩
    simp only [not_or] at finite ⊢
    exact ⟨finite.1, finite.2, notNan⟩

theorem IsWord.exists_eq_cons {text : List Char} (named : IsWord text) :
    ∃ first rest, text = first :: rest ∧ (first.toLower = 'i' ∨ first.toLower = 'n') := by
  cases text with
  | nil => simp [IsWord] at named
  | cons first rest =>
      refine ⟨first, rest, rfl, ?_⟩
      simp only [IsWord, List.map_cons, List.mem_cons, List.not_mem_nil,
        or_false] at named
      rcases named with inf | infinity | nan
      · exact .inl (List.cons.inj inf).1
      · exact .inl (List.cons.inj infinity).1
      · exact .inr (List.cons.inj nan).1

private theorem toLower_eq_self_of_isDigit {c : Char} (digit : c.isDigit = true) :
    c.toLower = c := by
  have last : c.toNat ≤ 0x39 := (Char.isDigit_iff_toNat.mp digit).2
  refine dif_neg fun upper => ?_
  have first : 0x41 ≤ c.toNat := upper.1
  omega

theorem IsWord.unsigned {text : List Char} (named : IsWord text) : Unsigned text := by
  obtain ⟨first, rest, rfl, letter⟩ := named.exists_eq_cons
  intro c same
  cases same
  constructor
  all_goals
    rintro rfl
    exact absurd letter (by decide)

theorem IsSignificand.exists_eq_cons {whole fraction significand : List Char}
    (digits : IsSignificand whole fraction significand)
    (digit : ∀ c ∈ whole ++ fraction, c.isDigit = true)
    (nonempty : whole ++ fraction ≠ []) :
    ∃ first rest, significand = first :: rest ∧ (first.isDigit = true ∨ first = '.') := by
  cases digits with
  | whole =>
      rw [List.append_nil] at digit nonempty
      obtain ⟨first, rest, rfl⟩ := List.exists_cons_of_ne_nil nonempty
      exact ⟨first, rest, rfl, .inl (digit first List.mem_cons_self)⟩
  | point =>
      cases whole with
      | nil => exact ⟨'.', fraction, rfl, .inr rfl⟩
      | cons first rest => exact ⟨first, _, rfl, .inl (digit first List.mem_cons_self)⟩

theorem not_isWord_cons {first : Char} {rest : List Char}
    (begins : first.isDigit = true ∨ first = '.') : ¬ IsWord (first :: rest) := by
  intro named
  obtain ⟨_, _, same, letter⟩ := named.exists_eq_cons
  obtain ⟨rfl, rfl⟩ := List.cons.inj same
  rcases begins with digit | rfl
  · rw [toLower_eq_self_of_isDigit digit] at letter
    rcases letter with rfl | rfl
    · exact absurd digit (by decide)
    · exact absurd digit (by decide)
  · exact absurd letter (by decide)

/-! ## Whole texts -/

theorem ofText?_eq (text : String) :
    ofText? text =
      match word? (splitSign text.toList).1 (splitSign text.toList).2 with
      | some word => some word
      | none =>
          (decimal? (splitSign text.toList).1 (splitSign text.toList).2).map .decimal :=
  rfl

theorem ofText?_of_written {parts : Parts} {text : String}
    (written : parts.WrittenAs text.toList) :
    ofText? text = some (.decimal parts.decimal) := by
  rw [ofText?_eq]
  generalize text.toList = characters at written
  obtain ⟨signed, digits, digit, nonempty, scaled⟩ := written
  rename_i sign significand exponent
  obtain ⟨first, rest, begins, firstKind⟩ := digits.exists_eq_cons digit nonempty
  have unsigned : Unsigned (significand ++ exponent) := by
    rw [begins]
    rcases firstKind with digit | rfl
    · exact unsigned_of_isDigit digit
    · intro c same
      cases same
      decide
  have noWord : word? parts.negative (significand ++ exponent) = none := by
    rw [← Option.not_isSome_iff_eq_none, word?_isSome_iff, begins]
    exact not_isWord_cons firstKind
  rw [splitSign_append signed unsigned, noWord,
    decimal?_append digits digit nonempty scaled]
  rfl

private theorem isSome_ofText?_of_isSignedWord {text : String}
    (named : IsSignedWord text.toList) : (ofText? text).isSome = true := by
  rw [ofText?_eq]
  generalize text.toList = characters at named
  obtain ⟨signed, named⟩ := named
  obtain ⟨numeral, read⟩ := Option.isSome_iff_exists.mp (word?_isSome_iff.mpr named)
  rw [splitSign_append signed named.unsigned, read]
  rfl

theorem ofText?_eq_none_iff {text : String} :
    ofText? text = none ↔
      ¬ ((∃ parts : Parts, parts.WrittenAs text.toList) ∨ IsSignedWord text.toList) := by
  constructor
  · rintro refused (⟨parts, written⟩ | named)
    · rw [ofText?_of_written written] at refused
      cases refused
    · have read := isSome_ofText?_of_isSignedWord named
      rw [refused] at read
      cases read
  · intro neither
    rw [not_or] at neither
    obtain ⟨sign, signed, cut⟩ := exists_isSign text.toList
    have noWord : word? (splitSign text.toList).1 (splitSign text.toList).2 = none := by
      rw [← Option.not_isSome_iff_eq_none, word?_isSome_iff]
      intro named
      rw [cut] at neither
      exact neither.2 (.text signed named)
    have noDecimal :
        decimal? (splitSign text.toList).1 (splitSign text.toList).2 = none := by
      rw [Option.eq_none_iff_forall_ne_some]
      intro decimal read
      obtain ⟨parts, written⟩ := exists_parts_of_decimal? read signed
      rw [← cut] at written
      exact neither.1 ⟨parts, written⟩
    rw [ofText?_eq, noWord, noDecimal]
    rfl

end LispFront.Numeral
