import LispFront.Syntax.Render
import LispFront.Proofs.Numeral.Grammar
import LispFront.Proofs.Numeral.Rounding
import Mathlib.Algebra.Order.Field.Power

/-! # The value of a number

The value of a decimal is the number nearest to what its digits say, however many there
are and however large its exponent (`Expression.numberValue_number`). -/

namespace LispFront

open Binary64

namespace Decimal

def magnitude (decimal : Decimal) : ℚ :=
  decimal.significand * 10 ^ decimal.exponent

private theorem units_finiteRanks : (units finiteRanks : ℚ) = 2 ^ 1024 * 2 ^ 1074 := by
  have last : finiteRanks = 2046 * 2 ^ 52 + 2 ^ 52 := by decide
  have power (base : ℚ) : base ^ 52 * base ^ 2046 = base ^ 1024 * base ^ 1074 := by
    rw [← pow_add, ← pow_add]
  rw [last, units_add (by decide) (.inr le_rfl), Nat.cast_mul, Nat.cast_pow, Nat.cast_pow,
    Nat.cast_ofNat]
  exact power 2

private theorem two_pow_le_ten_pow : (2 : ℚ) ^ 1024 ≤ 10 ^ 310 := by
  have naturals : (2 : ℕ) ^ 1024 ≤ 10 ^ 310 := by decide +kernel
  exact_mod_cast naturals

private theorem two_pow_lt_ten_pow : (2 : ℚ) ^ 1075 < 10 ^ 330 := by
  have naturals : (2 : ℕ) ^ 1075 < 10 ^ 330 := by decide +kernel
  exact_mod_cast naturals

section

variable {decimal : Decimal}

private theorem significand_lt (significand : Nat) :
    significand < 10 ^ (significand.log2 / 3 + 1) :=
  calc significand < 2 ^ (significand.log2 + 1) := Nat.lt_log2_self
    _ ≤ 2 ^ (3 * (significand.log2 / 3 + 1)) :=
      Nat.pow_le_pow_right (by decide) (by omega)
    _ = 8 ^ (significand.log2 / 3 + 1) := by rw [pow_mul]; rfl
    _ ≤ 10 ^ (significand.log2 / 3 + 1) := Nat.pow_le_pow_left (by decide) _

private theorem magnitude_nonneg (decimal : Decimal) : 0 ≤ decimal.magnitude := by
  unfold magnitude
  positivity

private theorem overflows (nonzero : decimal.significand ≠ 0)
    (large : 310 ≤ decimal.exponent) :
    units finiteRanks ≤ decimal.magnitude * 2 ^ 1074 := by
  have one : (1 : ℚ) ≤ decimal.significand := by exact_mod_cast Nat.pos_of_ne_zero nonzero
  have power : (10 : ℚ) ^ 310 ≤ 10 ^ decimal.exponent := by
    rw [← zpow_natCast]
    exact zpow_le_zpow_right₀ (by norm_num) large
  have least : (2 : ℚ) ^ 1024 ≤ decimal.magnitude :=
    calc (2 : ℚ) ^ 1024 ≤ 10 ^ decimal.exponent := two_pow_le_ten_pow.trans power
      _ ≤ decimal.magnitude := le_mul_of_one_le_left (by positivity) one
  rw [units_finiteRanks]
  exact mul_le_mul_of_nonneg_right least (by positivity)

private theorem underflows
    (small : decimal.exponent + (decimal.significand.log2 / 3 + 1 : Nat) ≤ -330) :
    decimal.magnitude * 2 ^ 1074 < 1 / 2 := by
  have digits : (decimal.significand : ℚ) < 10 ^ (decimal.significand.log2 / 3 + 1) := by
    exact_mod_cast significand_lt decimal.significand
  have below : decimal.magnitude < (10 ^ 330)⁻¹ :=
    calc decimal.magnitude <
      10 ^ (decimal.significand.log2 / 3 + 1) * 10 ^ decimal.exponent :=
          mul_lt_mul_of_pos_right digits (by positivity)
      _ = 10 ^ (decimal.exponent + (decimal.significand.log2 / 3 + 1 : Nat)) := by
          rw [← zpow_natCast, ← zpow_add₀ (by norm_num), add_comm]
      _ ≤ 10 ^ (-330 : ℤ) := zpow_le_zpow_right₀ (by norm_num) small
      _ = (10 ^ 330)⁻¹ := zpow_neg 10 330
  have half : (10 ^ 330 : ℚ)⁻¹ * 2 ^ 1074 < 1 / 2 := by
    have power : (2 : ℚ) ^ 1075 = 2 ^ 1074 * 2 := pow_succ 2 1074
    have less := two_pow_lt_ten_pow
    rw [power] at less
    rw [inv_mul_lt_iff₀ (by positivity), mul_one_div, lt_div_iff₀ (by norm_num)]
    exact less
  exact (mul_lt_mul_of_pos_right below (by positivity)).trans half

/-- The value is nearest to what the significand and the exponent say, and has the sign of
the decimal. -/
theorem exists_nearest_toBinary64 (decimal : Decimal) :
    ∃ rank, Nearest decimal.magnitude rank ∧
      decimal.toBinary64.toBits = rank + signBit decimal.negative := by
  simp only [toBinary64]
  split
  · rename_i nothing
    have zero : decimal.magnitude = 0 := by
      rw [magnitude, nothing, Nat.cast_zero, zero_mul]
    refine ⟨0, nearest_zero (magnitude_nonneg decimal) ?_, toBits_zero _⟩
    rw [zero, zero_mul]
    norm_num
  rename_i nonzero
  split
  · rename_i large
    exact ⟨finiteRanks, nearest_finiteRanks (overflows nonzero large), toBits_infinity _⟩
  split
  · rename_i small
    exact ⟨0, nearest_zero (magnitude_nonneg decimal) (underflows small), toBits_zero _⟩
  split
  · rename_i whole
    obtain ⟨power, same⟩ := Int.eq_ofNat_of_zero_le whole
    have quotient : decimal.magnitude =
        (decimal.significand * 10 ^ power : Nat) / (1 : Nat) := by
      rw [magnitude, same, zpow_natCast, Nat.cast_one, div_one, Nat.cast_mul,
        Nat.cast_pow, Nat.cast_ofNat]
    rw [quotient, same, Int.toNat_natCast]
    exact ⟨_, nearest_nearestRank _ Nat.one_pos, toBits_ofQuotient _ _ _⟩
  · rename_i fraction
    obtain ⟨power, same⟩ : ∃ power : Nat, decimal.exponent = -power :=
      ⟨(-decimal.exponent).toNat, by omega⟩
    have quotient : decimal.magnitude = decimal.significand / (10 ^ power : Nat) := by
      rw [magnitude, same, zpow_neg, zpow_natCast, Nat.cast_pow, Nat.cast_ofNat,
        div_eq_mul_inv]
    rw [quotient, same, neg_neg, Int.toNat_natCast]
    exact ⟨_, nearest_nearestRank _ (by positivity), toBits_ofQuotient _ _ _⟩

end

end Decimal

namespace Numeral.Parts

/-- What the digits on either side of the point and the exponent say, exactly. -/
def magnitude (parts : Parts) : ℚ :=
  (Nat.ofDigitChars 10 parts.whole 0 +
    Nat.ofDigitChars 10 parts.fraction 0 / 10 ^ parts.fraction.length) *
      10 ^ parts.exponent

private theorem magnitude_decimal (parts : Parts) :
    parts.decimal.magnitude = parts.magnitude := by
  have joined : digitsValue (parts.whole ++ parts.fraction) =
      10 ^ parts.fraction.length * Nat.ofDigitChars 10 parts.whole 0 +
        Nat.ofDigitChars 10 parts.fraction 0 :=
    (Nat.ofDigitChars_append 0).trans Nat.ofDigitChars_eq_ofDigitChars_zero
  rw [Decimal.magnitude, decimal, joined, magnitude,
    zpow_sub₀ (by norm_num), zpow_natCast]
  push_cast
  field_simp

end Numeral.Parts

namespace Expression

/-- A number whose text is a decimal has the nearest value there is, with the sign of the
text; a number has none if its text is neither a decimal nor a word, and is refused with
all of it. -/
theorem numberValue_number (token : Token) (text : String) :
    (∀ parts : Numeral.Parts, parts.WrittenAs text.toList →
      ∃ value, (number token text).numberValue = .ok value ∧
        ∀ rank, Nearest parts.magnitude rank ↔
          value.toBits = rank + signBit parts.negative) ∧
    ∀ failure, (number token text).numberValue = .error failure ↔
      failure = .invalidNumber text ∧
        ¬ ((∃ parts : Numeral.Parts, parts.WrittenAs text.toList) ∨
          Numeral.IsSignedWord text.toList) := by
  constructor
  · intro parts written
    obtain ⟨rank, nearest, bits⟩ := parts.decimal.exists_nearest_toBinary64
    rw [parts.magnitude_decimal] at nearest
    refine ⟨parts.decimal.toBinary64, ?_,
      fun other => ⟨fun nearest' => ?_, fun same => ?_⟩⟩
    · rw [numberValue, Numeral.ofText?_of_written written]
      rfl
    · rw [bits, nearest.unique nearest']
      rfl
    · have unsigned : rank = other := Nat.add_right_cancel (bits.symm.trans same)
      rwa [← unsigned]
  · intro failure
    rw [← Numeral.ofText?_eq_none_iff, numberValue]
    cases read : Numeral.ofText? text with
    | none => simp [eq_comm]
    | some numeral => simp

/-- Halfway between two numbers, the even one. -/
theorem numberValue_number_of_halfway :
    let text := "-.9007199254740993E+16"
    let parts : Numeral.Parts := ⟨true, [], "9007199254740993".toList, 16⟩
    parts.WrittenAs text.toList ∧
      ∃ value, (number ⟨.number, text, .origin⟩ text).numberValue = .ok value ∧
        value.toBits = 0xC340000000000000 ∧
          Nearest parts.magnitude 0x4340000000000000 := by
  intro text parts
  have scaled : Numeral.IsExponent 16 "E+16".toList :=
    .present (.inr rfl) .plus (List.all_eq_true.mp (by decide)) (by decide) (by decide)
  have digit : ∀ c ∈ parts.whole ++ parts.fraction, c.isDigit = true :=
    List.all_eq_true.mp (by decide)
  have nonempty : parts.whole ++ parts.fraction ≠ [] := by decide
  have cut : text.toList =
      ['-'] ++ (parts.whole ++ '.' :: parts.fraction ++ "E+16".toList) := by decide
  have written : parts.WrittenAs text.toList := by
    rw [cut]
    exact .text .minus .point digit nonempty scaled
  obtain ⟨value, read, nearest⟩ :=
    (numberValue_number ⟨.number, text, .origin⟩ text).1 parts written
  have computed : (number ⟨.number, text, .origin⟩ text).numberValue.toOption.map toBits =
      some 0xC340000000000000 := by decide +kernel
  rw [read] at computed
  have bits : value.toBits = 0xC340000000000000 := Option.some.inj computed
  exact ⟨written, value, read, bits, (nearest _).mpr (bits.trans (by decide))⟩

end Expression

end LispFront
