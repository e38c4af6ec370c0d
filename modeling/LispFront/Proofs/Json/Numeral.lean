import Mathlib.Data.List.Basic
import Mathlib.Data.List.TakeWhile
import LispFront.Numeral.Decimal
import LispFront.Proofs.Json.Grammar

/-! # Numerals

What is cut off a text is a numeral (`isNumeral_of_numeral?`), and a numeral is cut off
whole in front of any text that does not carry it on (`numeral?_append`). The decimal
digits of a natural number are a numeral. -/

namespace LispFront

namespace Json

/-! ## What follows a numeral -/

def continuesNumeral (c : Char) : Bool :=
  c.isDigit || ['.', 'e', 'E', '+', '-'].contains c

/-- The text carries no numeral on that ends where it begins. -/
def EndsNumeral (text : List Char) : Prop :=
  ∀ c ∈ text.head?, continuesNumeral c = false

variable {following : List Char}

theorem EndsNumeral.nil : EndsNumeral [] := by
  intro c first
  cases first

theorem EndsNumeral.cons {c : Char} (rest : List Char)
    (apart : continuesNumeral c = false) : EndsNumeral (c :: rest) := by
  intro first same
  cases same
  exact apart

theorem EndsNumeral.ne {c mark : Char} {rest : List Char} (ends : EndsNumeral (c :: rest))
    (continues : continuesNumeral mark = true) : c ≠ mark := by
  rintro rfl
  rw [ends c rfl] at continues
  cases continues

def EndsDigits (text : List Char) : Prop :=
  ∀ c ∈ text.head?, c.isDigit = false

theorem EndsDigits.nil : EndsDigits [] := by
  intro c first
  cases first

theorem EndsDigits.cons {c : Char} (rest : List Char) (apart : c.isDigit = false) :
    EndsDigits (c :: rest) := by
  intro first same
  cases same
  exact apart

theorem EndsNumeral.endsDigits (ends : EndsNumeral following) : EndsDigits following := by
  intro c first
  have apart := ends c first
  rw [continuesNumeral, Bool.or_eq_false_iff] at apart
  exact apart.1

private theorem takeWhile_isDigit_append (ends : EndsDigits following)
    (text : List Char) :
    (text ++ following).takeWhile Char.isDigit = text.takeWhile Char.isDigit ∧
      (text ++ following).dropWhile Char.isDigit =
        text.dropWhile Char.isDigit ++ following := by
  induction text with
  | nil =>
      cases following with
      | nil => exact ⟨rfl, rfl⟩
      | cons c rest =>
          have apart := ends c rfl
          simp [apart]
  | cons c text induction =>
      cases digit : c.isDigit with
      | false => simp [digit]
      | true => simp [digit, induction]

theorem digits?_append (ends : EndsDigits following) (text : List Char) :
    digits? (text ++ following) =
      (digits? text).map fun (digits, rest) => (digits, rest ++ following) := by
  have cut := takeWhile_isDigit_append ends text
  unfold digits?
  rw [cut.1, cut.2]
  split <;> rfl

theorem whole?_append (ends : EndsDigits following) (text : List Char) :
    whole? (text ++ following) =
      (whole? text).map fun (whole, rest) => (whole, rest ++ following) := by
  unfold whole?
  rw [digits?_append ends]
  cases digits? text with
  | none => rfl
  | some cut =>
      obtain ⟨digits, rest⟩ := cut
      simp only [Option.map_some]
      split
      · rename_i same
        cases same
        rfl
      · rename_i single
        split
        · rename_i same
          cases same
          exact absurd rfl (single _ _ _)
        · rfl

private theorem fraction?_append (ends : EndsNumeral following) (text : List Char) :
    fraction? (text ++ following) =
      (fraction? text).map fun (fraction, rest) => (fraction, rest ++ following) := by
  cases text with
  | nil =>
      cases following with
      | nil => rfl
      | cons c rest =>
          have noPoint : c ≠ '.' := ends.ne rfl
          simp [fraction?, noPoint]
  | cons c text =>
      by_cases point : c = '.'
      · subst point
        simp [fraction?, digits?_append ends.endsDigits, Function.comp_def]
      · simp [fraction?, point]

private theorem splitExponentSign_append (ends : EndsNumeral following)
    (text : List Char) :
    splitExponentSign (text ++ following) =
      ((splitExponentSign text).1, (splitExponentSign text).2 ++ following) := by
  cases text with
  | nil =>
      cases following with
      | nil => rfl
      | cons c rest =>
          have noMinus : c ≠ '-' := ends.ne rfl
          have noPlus : c ≠ '+' := ends.ne rfl
          simp [splitExponentSign, noMinus, noPlus]
  | cons c text =>
      by_cases minus : c = '-'
      · subst minus
        rfl
      by_cases plus : c = '+'
      · subst plus
        rfl
      simp [splitExponentSign, minus, plus]

private theorem exponent?_append (ends : EndsNumeral following) (text : List Char) :
    exponent? (text ++ following) =
      (exponent? text).map fun (exponent, rest) => (exponent, rest ++ following) := by
  cases text with
  | nil =>
      cases following with
      | nil => rfl
      | cons c rest =>
          have noMark : ¬ (c = 'e' ∨ c = 'E') := not_or.mpr ⟨ends.ne rfl, ends.ne rfl⟩
          simp [exponent?, noMark]
  | cons mark text =>
      by_cases marked : mark = 'e' ∨ mark = 'E'
      · simp [exponent?, marked, splitExponentSign_append ends,
          digits?_append ends.endsDigits, Function.comp_def]
      · simp [exponent?, marked]

private theorem splitMinus_append (ends : EndsNumeral following) (text : List Char) :
    splitMinus (text ++ following) =
      ((splitMinus text).1, (splitMinus text).2 ++ following) := by
  cases text with
  | nil =>
      cases following with
      | nil => rfl
      | cons c rest =>
          have noMinus : c ≠ '-' := ends.ne rfl
          simp [splitMinus, noMinus]
  | cons c text =>
      by_cases minus : c = '-'
      · subst minus
        rfl
      · simp [splitMinus, minus]

theorem numeral?_append (ends : EndsNumeral following) (text : List Char) :
    numeral? (text ++ following) =
      (numeral? text).map fun (numeral, rest) => (numeral, rest ++ following) := by
  simp only [numeral?, splitMinus_append ends, whole?_append ends.endsDigits,
    fraction?_append ends, exponent?_append ends, Option.bind_eq_bind, Option.bind_map,
    Option.map_bind, Function.comp_def]
  rfl

/-! ## What is cut off -/

theorem isDigits_of_digits? {text digits rest : List Char}
    (cut : digits? text = some (digits, rest)) : IsDigits digits := by
  unfold digits? at cut
  split at cut
  · cases cut
  · rename_i nonempty
    cases cut
    exact ⟨fun c member => List.mem_takeWhile_imp member, nonempty⟩

private theorem isWhole_of_whole? {text whole rest : List Char}
    (cut : whole? text = some (whole, rest)) : IsWhole whole := by
  unfold whole? at cut
  split at cut
  · cases cut
  · rename_i single
    have isDigits := isDigits_of_digits? cut
    cases whole with
    | nil => exact absurd rfl isDigits.nonempty
    | cons first digits =>
        by_cases zero : first = '0'
        · subst zero
          cases digits with
          | nil => exact .zero
          | cons second digits => exact absurd cut (single second digits rest)
        · exact .positive isDigits zero

private theorem isFraction_of_fraction? {text fraction rest : List Char}
    (cut : fraction? text = some (fraction, rest)) : IsFraction fraction := by
  unfold fraction? at cut
  split at cut
  · simp only [Option.map_eq_some_iff, Prod.exists] at cut
    obtain ⟨digits, tail, cut, same⟩ := cut
    cases same
    exact .present (isDigits_of_digits? cut)
  · cases cut
    exact .absent

private theorem splitExponentSign_cases (text : List Char) :
    (splitExponentSign text).1 = [] ∨ (splitExponentSign text).1 = ['-'] ∨
      (splitExponentSign text).1 = ['+'] := by
  unfold splitExponentSign
  split <;> simp

private theorem isExponent_of_exponent? {text exponent rest : List Char}
    (cut : exponent? text = some (exponent, rest)) : IsExponent exponent := by
  unfold exponent? at cut
  split at cut
  · cases cut
    exact .absent
  split at cut
  · rename_i marks
    simp only [Option.map_eq_some_iff, Prod.exists] at cut
    obtain ⟨digits, tail, cut, same⟩ := cut
    cases same
    exact .present marks (splitExponentSign_cases _) (isDigits_of_digits? cut)
  · cases cut
    exact .absent

private theorem splitMinus_cases (text : List Char) :
    (splitMinus text).1 = [] ∨ (splitMinus text).1 = ['-'] := by
  unfold splitMinus
  split <;> simp

theorem isNumeral_of_numeral? {text numeral rest : List Char}
    (cut : numeral? text = some (numeral, rest)) : IsNumeral numeral := by
  simp only [numeral?, Option.bind_eq_bind, Option.bind_eq_some_iff, Prod.exists] at cut
  obtain ⟨whole, _, wholeCut, fraction, _, fractionCut, exponent, _, exponentCut, same⟩ :=
    cut
  cases same
  exact .parts (splitMinus_cases text) (isWhole_of_whole? wholeCut)
    (isFraction_of_fraction? fractionCut) (isExponent_of_exponent? exponentCut)

/-! ## Numerals by themselves -/

section

variable {digits whole fraction exponent : List Char}

theorem digits?_of_isDigits (isDigits : IsDigits digits) :
    digits? digits = some (digits, []) := by
  have all : digits.takeWhile Char.isDigit = digits :=
    List.takeWhile_eq_self_iff.mpr isDigits.digits
  have rest : digits.dropWhile Char.isDigit = [] :=
    List.dropWhile_eq_nil_iff.mpr isDigits.digits
  unfold digits?
  rw [all, rest]
  split
  · exact absurd rfl isDigits.nonempty
  · rfl

private theorem whole?_of_isWhole (isWhole : IsWhole whole) :
    whole? whole = some (whole, []) := by
  cases isWhole with
  | zero => rfl
  | positive isDigits nonzero =>
      unfold whole?
      rw [digits?_of_isDigits isDigits]
      split
      · rename_i zero
        cases zero
        exact absurd rfl nonzero
      · rfl

theorem IsDigits.exists_eq_cons (isDigits : IsDigits digits) :
    ∃ first rest, digits = first :: rest ∧ first.isDigit = true := by
  obtain ⟨first, rest, rfl⟩ := List.exists_cons_of_ne_nil isDigits.nonempty
  exact ⟨first, rest, rfl, isDigits.digits first List.mem_cons_self⟩

theorem IsWhole.exists_eq_cons (isWhole : IsWhole whole) :
    ∃ first rest, whole = first :: rest ∧ first.isDigit = true := by
  cases isWhole with
  | zero => exact ⟨'0', [], rfl, rfl⟩
  | positive isDigits nonzero => exact isDigits.exists_eq_cons

theorem IsExponent.endsDigits (isExponent : IsExponent exponent) :
    EndsDigits exponent := by
  cases isExponent with
  | absent => exact .nil
  | present marks signs isDigits =>
      apply EndsDigits.cons
      rcases marks with rfl | rfl <;> rfl

private theorem exponent?_of_isExponent (isExponent : IsExponent exponent) :
    exponent? exponent = some (exponent, []) := by
  cases isExponent with
  | absent => rfl
  | present marks signs isDigits =>
      obtain ⟨first, rest, rfl, digit⟩ := isDigits.exists_eq_cons
      have noMinus : first ≠ '-' := by
        rintro rfl
        cases digit
      have noPlus : first ≠ '+' := by
        rintro rfl
        cases digit
      rcases signs with rfl | rfl | rfl
      · simp [exponent?, marks, splitExponentSign, noMinus, noPlus,
          digits?_of_isDigits isDigits]
      · simp [exponent?, marks, splitExponentSign, digits?_of_isDigits isDigits]
      · simp [exponent?, marks, splitExponentSign, digits?_of_isDigits isDigits]

private theorem fraction?_of_isFraction (isFraction : IsFraction fraction)
    (isExponent : IsExponent exponent) :
    fraction? (fraction ++ exponent) = some (fraction, exponent) := by
  cases isFraction with
  | absent =>
      cases isExponent with
      | absent => rfl
      | present marks signs isDigits => rcases marks with rfl | rfl <;> rfl
  | present isDigits =>
      simp [fraction?, digits?_append isExponent.endsDigits, digits?_of_isDigits isDigits]

private theorem endsDigits_append (isFraction : IsFraction fraction)
    (isExponent : IsExponent exponent) : EndsDigits (fraction ++ exponent) := by
  cases isFraction with
  | absent => exact isExponent.endsDigits
  | present isDigits => exact .cons _ rfl

end

theorem numeral?_of_isNumeral {numeral : List Char} (isNumeral : IsNumeral numeral) :
    numeral? numeral = some (numeral, []) := by
  obtain ⟨signs, isWhole, isFraction, isExponent⟩ := isNumeral
  rename_i minus whole fraction exponent
  have minusCut : splitMinus (minus ++ (whole ++ (fraction ++ exponent))) =
      (minus, whole ++ (fraction ++ exponent)) := by
    obtain ⟨first, rest, rfl, digit⟩ := isWhole.exists_eq_cons
    have noMinus : first ≠ '-' := by
      rintro rfl
      cases digit
    rcases signs with rfl | rfl <;> simp [splitMinus, noMinus]
  have wholeCut : whole? (whole ++ (fraction ++ exponent)) =
      some (whole, fraction ++ exponent) := by
    simp [whole?_append (endsDigits_append isFraction isExponent),
      whole?_of_isWhole isWhole]
  simp only [List.append_assoc, numeral?, minusCut, wholeCut,
    fraction?_of_isFraction isFraction isExponent, exponent?_of_isExponent isExponent,
    Option.bind_eq_bind, Option.bind_some]

theorem IsNumeral.exists_eq_cons {numeral : List Char} (isNumeral : IsNumeral numeral) :
    ∃ first rest, numeral = first :: rest ∧ (first = '-' ∨ first.isDigit = true) := by
  obtain ⟨signs, isWhole, isFraction, isExponent⟩ := isNumeral
  obtain ⟨first, rest, rfl, digit⟩ := isWhole.exists_eq_cons
  rcases signs with rfl | rfl
  · exact ⟨first, _, rfl, .inr digit⟩
  · exact ⟨'-', _, rfl, .inl rfl⟩

/-! ## Natural numbers -/

theorem eq_zero_of_head?_toDigits {value : Nat}
    (zero : (Nat.toDigits 10 value).head? = some '0') : value = 0 := by
  induction value using Nat.strongRecOn with
  | ind value induction =>
      rw [Nat.toDigits_eq_if (by decide)] at zero
      split at zero
      · simpa using zero
      · have shorter : value / 10 < value := Nat.div_lt_self (by omega) (by decide)
        rw [List.head?_append_of_ne_nil _ Nat.toDigits_ne_nil] at zero
        have none := induction (value / 10) shorter zero
        omega

private theorem isDigits_toDigits (value : Nat) : IsDigits (Nat.toDigits 10 value) :=
  ⟨fun _ member => Nat.isDigit_of_mem_toDigits (by decide) (by decide) member,
    Nat.toDigits_ne_nil⟩

private theorem isWhole_toDigits (value : Nat) : IsWhole (Nat.toDigits 10 value) := by
  have isDigits := isDigits_toDigits value
  obtain ⟨first, rest, digits, -⟩ := isDigits.exists_eq_cons
  by_cases zero : first = '0'
  · have single : value = 0 := eq_zero_of_head?_toDigits (by rw [digits, zero]; rfl)
    subst single
    exact .zero
  · rw [digits] at isDigits ⊢
    exact .positive isDigits zero

private theorem isNumeral_toDigits (value : Nat) : IsNumeral (Nat.toDigits 10 value) := by
  have parts := IsNumeral.parts (.inl rfl) (isWhole_toDigits value) .absent .absent
  rwa [List.nil_append, List.append_nil, List.append_nil] at parts

theorem numeral?_toDigits (value : Nat) :
    numeral? (Nat.toDigits 10 value) = some (Nat.toDigits 10 value, []) :=
  numeral?_of_isNumeral (isNumeral_toDigits value)

end Json

theorem digitsValue_toDigits (value : Nat) :
    digitsValue (Nat.toDigits 10 value) = value :=
  Nat.ofDigitChars_ten_toDigits

end LispFront
