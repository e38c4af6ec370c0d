import Mathlib.Algebra.Order.Field.Rat
import Mathlib.Tactic.FieldSimp
import Mathlib.Tactic.Linarith
import Mathlib.Tactic.NormNum
import Mathlib.Tactic.Positivity
import Mathlib.Tactic.Ring
import LispFront.Numeral.Binary64

/-! # Rounding

The numbers of 64 bits by their ranks: what a rank stands for, which rank is nearest to a
rational number, and that there is one only (`Nearest.unique`). A quotient is rounded to
it (`nearest_nearestRank`), since its significand is rounded to the nearest natural number
and every other rank of that spacing, or of a wider one, stands for a multiple of the
spacing. -/

namespace LispFront

/-! ## Quotients -/

theorem roundQuotient_cases (numerator denominator : Nat) :
    roundQuotient numerator denominator = numerator / denominator ∧
        2 * (numerator % denominator) ≤ denominator ∨
      roundQuotient numerator denominator = numerator / denominator + 1 ∧
        denominator ≤ 2 * (numerator % denominator) := by
  unfold roundQuotient
  grind

private theorem roundQuotient_mod_two {numerator denominator : Nat}
    (halfway : 2 * (numerator % denominator) = denominator) :
    roundQuotient numerator denominator % 2 = 0 := by
  unfold roundQuotient
  grind

theorem roundQuotient_near (numerator : Nat) {denominator : Nat}
    (positive : 0 < denominator) :
    |(roundQuotient numerator denominator : ℚ) - numerator / denominator| ≤ 1 / 2 ∧
      (|(roundQuotient numerator denominator : ℚ) - numerator / denominator| = 1 / 2 →
        roundQuotient numerator denominator % 2 = 0) := by
  have scale : (0 : ℚ) < denominator := by exact_mod_cast positive
  have parts : (numerator / denominator : ℚ) =
      (numerator / denominator : Nat) +
        (numerator % denominator : Nat) / denominator := by
    have whole :
        (denominator : ℚ) * (numerator / denominator : Nat) +
          (numerator % denominator : Nat) = numerator := by
            exact_mod_cast Nat.div_add_mod numerator denominator
    field_simp
    linarith
  have less : ((numerator % denominator : Nat) : ℚ) / denominator < 1 := by
    rw [div_lt_one scale]
    exact_mod_cast Nat.mod_lt numerator positive
  have nonneg : (0 : ℚ) ≤ (numerator % denominator : Nat) / denominator := by positivity
  have half : ((numerator % denominator : Nat) : ℚ) / denominator = 1 / 2 →
      2 * (numerator % denominator) = denominator := by
    intro equal
    rw [div_eq_iff scale.ne'] at equal
    have doubled : (2 : ℚ) * (numerator % denominator : Nat) = denominator := by linarith
    exact_mod_cast doubled
  rw [parts]
  rcases roundQuotient_cases numerator denominator with ⟨rounded, low⟩ | ⟨rounded, high⟩
  · have atMost : ((numerator % denominator : Nat) : ℚ) / denominator ≤ 1 / 2 := by
      rw [div_le_iff₀ scale]
      have doubled : (2 : ℚ) * (numerator % denominator : Nat) ≤ denominator := by
        exact_mod_cast low
      linarith
    rw [rounded, sub_add_cancel_left, abs_neg, abs_of_nonneg nonneg, ← rounded]
    exact ⟨atMost, fun equal => roundQuotient_mod_two (half equal)⟩
  · have atLeast : (1 : ℚ) / 2 ≤ (numerator % denominator : Nat) / denominator := by
      rw [le_div_iff₀ scale]
      have doubled : (denominator : ℚ) ≤ 2 * (numerator % denominator : Nat) := by
        exact_mod_cast high
      linarith
    have distance : ((numerator / denominator + 1 : Nat) : ℚ) -
        ((numerator / denominator : Nat) + (numerator % denominator : Nat) / denominator)
          = 1 - (numerator % denominator : Nat) / denominator := by
      push_cast
      ring
    rw [rounded, distance, abs_of_nonneg (by linarith), ← rounded]
    exact ⟨by linarith, fun equal => roundQuotient_mod_two (half (by linarith))⟩

theorem half_le_of_ne {value : ℚ} {nearest other : Nat}
    (near : |(nearest : ℚ) - value| ≤ 1 / 2) (apart : other ≠ nearest) :
    1 / 2 ≤ |(other : ℚ) - value| := by
  have one : (1 : ℚ) ≤ |(other : ℚ) - nearest| := by
    have integers : (1 : ℤ) ≤ |(other : ℤ) - nearest| := Int.one_le_abs (by omega)
    exact_mod_cast integers
  have triangle : |(other : ℚ) - nearest| ≤
      |(other : ℚ) - value| + |(nearest : ℚ) - value| := by
    rw [abs_sub_comm (nearest : ℚ) value]
    exact abs_sub_le _ _ _
  linarith

namespace Binary64

/-! ## Ranks -/

theorem units_eq (rank : Nat) :
    units rank = if rank < 2 ^ 52 then
      rank else (2 ^ 52 + rank % 2 ^ 52) * 2 ^ (rank / 2 ^ 52 - 1) := by
  simp only [units, Nat.shiftLeft_eq, Nat.shiftRight_eq_div_pow, one_mul]

theorem units_of_lt {significand : Nat} (small : significand < 2 ^ 52) :
    units significand = significand := by
  rw [units_eq, if_pos small]

theorem units_normal (shift : Nat) {fraction : Nat} (small : fraction < 2 ^ 52) :
    units ((shift + 1) * 2 ^ 52 + fraction) = (2 ^ 52 + fraction) * 2 ^ shift := by
  rw [units_eq, if_neg (by omega)]
  congr 2
  all_goals omega

theorem units_add {shift significand : Nat} (atMost : significand ≤ 2 ^ 53)
    (leading : shift = 0 ∨ 2 ^ 52 ≤ significand) :
    units (shift * 2 ^ 52 + significand) = significand * 2 ^ shift := by
  rcases Nat.lt_or_ge significand (2 ^ 52) with small | large
  · obtain rfl : shift = 0 := by omega
    rw [Nat.zero_mul, Nat.zero_add, units_of_lt small, pow_zero, Nat.mul_one]
  rcases Nat.lt_or_ge significand (2 ^ 53) with normal | carried
  · have split : shift * 2 ^ 52 + significand =
        (shift + 1) * 2 ^ 52 + (significand - 2 ^ 52) := by omega
    rw [split, units_normal shift (by omega), Nat.add_sub_cancel' large]
  · obtain rfl : significand = 2 ^ 53 := by omega
    have split : shift * 2 ^ 52 + 2 ^ 53 = (shift + 1 + 1) * 2 ^ 52 + 0 := by omega
    rw [split, units_normal (shift + 1) (by decide), pow_succ 2 shift]
    ring

theorem exists_rank_parts (rank : Nat) :
    rank < 2 ^ 52 ∨ ∃ shift fraction, fraction < 2 ^ 52 ∧
      rank = (shift + 1) * 2 ^ 52 + fraction := by
  rcases Nat.lt_or_ge rank (2 ^ 52) with small | large
  · exact .inl small
  · exact .inr ⟨rank / 2 ^ 52 - 1, rank % 2 ^ 52, Nat.mod_lt _ (by decide), by omega⟩

theorem units_strictMono : StrictMono units := by
  apply strictMono_nat_of_lt_succ
  intro rank
  rcases exists_rank_parts rank with small | ⟨shift, fraction, small, rfl⟩
  · have next : units (0 * 2 ^ 52 + (rank + 1)) = (rank + 1) * 2 ^ 0 :=
      units_add (by omega) (.inl rfl)
    rw [Nat.zero_mul, Nat.zero_add, pow_zero, Nat.mul_one] at next
    rw [units_of_lt small, next]
    exact Nat.lt_succ_self rank
  · have next : units (shift * 2 ^ 52 + (2 ^ 52 + fraction + 1)) =
        (2 ^ 52 + fraction + 1) * 2 ^ shift :=
      units_add (by omega) (.inr (by omega))
    have split : (shift + 1) * 2 ^ 52 + fraction + 1 =
        shift * 2 ^ 52 + (2 ^ 52 + fraction + 1) := by omega
    rw [units_normal shift small, split, next]
    exact Nat.mul_lt_mul_of_pos_right (Nat.lt_succ_self _) (by positivity)

theorem units_grid (shift rank : Nat) :
    (∃ count, units rank = count * 2 ^ shift) ∨ 0 < shift ∧
      units rank < 2 ^ 52 * 2 ^ shift := by
  rcases Nat.eq_zero_or_pos shift with rfl | positive
  · exact .inl ⟨units rank, by rw [pow_zero, Nat.mul_one]⟩
  rcases exists_rank_parts rank with small | ⟨own, fraction, small, rfl⟩
  · right
    rw [units_of_lt small]
    exact ⟨positive, small.trans_le (Nat.le_mul_of_pos_right _ (by positivity))⟩
  rw [units_normal own small]
  rcases Nat.lt_or_ge own shift with below | above
  · right
    refine ⟨positive, ?_⟩
    calc (2 ^ 52 + fraction) * 2 ^ own < 2 ^ 53 * 2 ^ own :=
          Nat.mul_lt_mul_of_pos_right (by omega) (by positivity)
      _ = 2 ^ 52 * 2 ^ (own + 1) := by ring
      _ ≤ 2 ^ 52 * 2 ^ shift :=
        Nat.mul_le_mul_left _ (Nat.pow_le_pow_right (by decide) below)
  · left
    refine ⟨(2 ^ 52 + fraction) * 2 ^ (own - shift), ?_⟩
    rw [Nat.mul_assoc, ← pow_add, Nat.sub_add_cancel above]

/-! ## The nearest rank -/

def spacing (scaled denominator : Nat) : Nat :=
  (scaled / denominator).log2 + 1 - 53

private theorem nearestRank_eq (numerator denominator : Nat) :
    nearestRank numerator denominator =
      spacing (numerator <<< 1074) denominator * 2 ^ 52 +
        roundQuotient (numerator <<< 1074)
          (denominator * 2 ^ spacing (numerator <<< 1074) denominator) := by
  change spacing (numerator <<< 1074) denominator <<< 52 +
    roundQuotient (numerator <<< 1074)
      (denominator <<< spacing (numerator <<< 1074) denominator) = _
  rw [Nat.shiftLeft_eq _ 52, Nat.shiftLeft_eq denominator]

private theorem significand_bounds (scaled denominator : Nat) :
    scaled / (denominator * 2 ^ spacing scaled denominator) < 2 ^ 53 ∧
      (spacing scaled denominator = 0 ∨
        2 ^ 52 ≤ scaled / (denominator * 2 ^ spacing scaled denominator)) := by
  rw [← Nat.div_div_eq_div_mul, spacing]
  generalize scaled / denominator = quotient
  constructor
  · rw [Nat.div_lt_iff_lt_mul (by positivity), ← pow_add]
    exact Nat.lt_log2_self.trans_le (Nat.pow_le_pow_right (by decide) (by omega))
  · rcases Nat.eq_zero_or_pos (quotient.log2 + 1 - 53) with none | some
    · exact .inl none
    · right
      have nonzero : quotient ≠ 0 := by
        rintro rfl
        simp at some
      rw [Nat.le_div_iff_mul_le (by positivity), ← pow_add]
      exact (Nat.pow_le_pow_right (by decide) (by omega)).trans (Nat.log2_self_le nonzero)

/-- `rank` is nearer to `value`, in units, than `other`, or else as near and even. -/
def Beats (value : ℚ) (rank other : Nat) : Prop :=
  |(units rank : ℚ) - value| ≤ |(units other : ℚ) - value| ∧
    (|(units other : ℚ) - value| = |(units rank : ℚ) - value| → rank % 2 = 0)

private theorem beats_of_significand {value : ℚ} {shift significand : Nat}
    (atMost : significand ≤ 2 ^ 53) (leading : shift = 0 ∨ 2 ^ 52 ≤ significand)
    (floor : shift = 0 ∨ 2 ^ 52 ≤ value) (near : |(significand : ℚ) - value| ≤ 1 / 2)
    (even : |(significand : ℚ) - value| = 1 / 2 → significand % 2 = 0) {other : Nat}
    (apart : other ≠ shift * 2 ^ 52 + significand) :
    Beats (value * 2 ^ shift) (shift * 2 ^ 52 + significand) other := by
  have scale : (0 : ℚ) < 2 ^ shift := by positivity
  have distance (count : Nat) : |((count * 2 ^ shift : Nat) : ℚ) - value * 2 ^ shift| =
      |(count : ℚ) - value| * 2 ^ shift := by
    push_cast
    rw [← sub_mul, abs_mul, abs_of_pos scale]
  rw [Beats, units_add atMost leading, distance]
  rcases units_grid shift other with ⟨count, multiple⟩ | ⟨positive, below⟩
  · have another : count ≠ significand := by
      rintro rfl
      rw [← units_add atMost leading] at multiple
      exact apart (units_strictMono.injective multiple)
    have atLeast := half_le_of_ne near another
    rw [multiple, distance]
    refine ⟨mul_le_mul_of_nonneg_right (near.trans atLeast) scale.le, fun equal => ?_⟩
    have same := mul_right_cancel₀ scale.ne' equal
    have parity := even (by linarith)
    omega
  · -- The least rank of this spacing is nearer already.
    have first : |(significand : ℚ) - value| ≤ value - 2 ^ 52 := by
      have least := floor.resolve_left positive.ne'
      rcases eq_or_ne (2 ^ 52) significand with rfl | another
      · rw [Nat.cast_pow, Nat.cast_ofNat, abs_of_nonpos (sub_nonpos.mpr least), neg_sub]
      · have atLeast := near.trans (half_le_of_ne near another)
        rw [Nat.cast_pow, Nat.cast_ofNat] at atLeast
        rwa [abs_of_nonpos (sub_nonpos.mpr least), neg_sub] at atLeast
    have further : |(significand : ℚ) - value| * 2 ^ shift <
        |(units other : ℚ) - value * 2 ^ shift| := by
      have small : (units other : ℚ) < 2 ^ 52 * 2 ^ shift := by exact_mod_cast below
      calc |(significand : ℚ) - value| * 2 ^ shift ≤ (value - 2 ^ 52) * 2 ^ shift :=
            mul_le_mul_of_nonneg_right first scale.le
        _ = value * 2 ^ shift - 2 ^ 52 * 2 ^ shift := sub_mul _ _ _
        _ < value * 2 ^ shift - units other := by linarith
        _ ≤ |(units other : ℚ) - value * 2 ^ shift| := by
            rw [abs_sub_comm]
            exact le_abs_self _
    exact ⟨further.le, fun equal => absurd equal further.ne'⟩

private theorem nearestRank_beats (numerator : Nat) {denominator : Nat}
    (positive : 0 < denominator) {other : Nat}
    (apart : other ≠ nearestRank numerator denominator) :
    Beats ((numerator <<< 1074 : Nat) / denominator)
      (nearestRank numerator denominator) other := by
  rw [nearestRank_eq] at apart ⊢
  generalize numerator <<< 1074 = scaled at *
  have bounds := significand_bounds scaled denominator
  generalize spacing scaled denominator = shift at *
  have divisor : 0 < denominator * 2 ^ shift := by positivity
  have near := roundQuotient_near scaled divisor
  have cases := roundQuotient_cases scaled (denominator * 2 ^ shift)
  have value : (scaled / denominator : ℚ) =
      scaled / (denominator * 2 ^ shift : Nat) * 2 ^ shift := by
    push_cast
    field_simp
  rw [value]
  refine beats_of_significand (by omega) (by omega) ?_ near.1 near.2 apart
  rcases bounds.2 with none | least
  · exact .inl none
  · right
    rw [le_div_iff₀ (by exact_mod_cast divisor)]
    exact_mod_cast (Nat.le_div_iff_mul_le divisor).mp least

/-! ## Rounding to the nearest rank -/

/-- What a rank stands for. The first without a finite number is where infinity begins. -/
def magnitude (rank : Nat) : ℚ :=
  units rank / 2 ^ 1074

/-- No rank is nearer to `value`, infinity among them, and of two that are as near this is
the even one. -/
structure Nearest (value : ℚ) (rank : Nat) : Prop where
  bounded : rank ≤ finiteRanks
  nearest : ∀ other ≤ finiteRanks, |magnitude rank - value| ≤ |magnitude other - value|
  even : ∀ other ≤ finiteRanks, other ≠ rank →
    |magnitude other - value| = |magnitude rank - value| → rank % 2 = 0

private theorem magnitude_strictMono : StrictMono magnitude := fun _ _ less =>
  div_lt_div_of_pos_right (by exact_mod_cast units_strictMono less) (by positivity)

theorem Nearest.not_lt {value : ℚ} {rank rank' : Nat} (nearest : Nearest value rank)
    (nearest' : Nearest value rank') : ¬ rank < rank' := by
  intro less
  have same : |magnitude rank' - value| = |magnitude rank - value| :=
    le_antisymm (nearest'.nearest rank nearest.bounded)
      (nearest.nearest rank' nearest'.bounded)
  have even := nearest.even rank' nearest'.bounded less.ne' same
  have even' := nearest'.even rank nearest.bounded less.ne same.symm
  have between : rank + 1 < rank' := by omega
  have low := magnitude_strictMono (Nat.lt_succ_self rank)
  have high := magnitude_strictMono between
  have nearer := nearest.nearest (rank + 1) (by have := nearest'.bounded; omega)
  rcases abs_eq_abs.mp same with equal | middle
  · linarith
  · have distance : |magnitude rank - value| = value - magnitude rank := by
      rw [abs_of_nonpos (by linarith), neg_sub]
    rw [distance] at nearer
    rcases le_abs.mp nearer with above | below
    · linarith
    · linarith

theorem Nearest.unique {value : ℚ} {rank rank' : Nat} (nearest : Nearest value rank)
    (nearest' : Nearest value rank') : rank = rank' :=
  Nat.le_antisymm (Nat.le_of_not_lt (nearest'.not_lt nearest))
    (Nat.le_of_not_lt (nearest.not_lt nearest'))

theorem nearest_of_beats {value : ℚ} {rank : Nat} (bounded : rank ≤ finiteRanks)
    (beats : ∀ other ≤ finiteRanks, other ≠ rank → Beats (value * 2 ^ 1074) rank other) :
    Nearest value rank := by
  have distance (rank : Nat) : |magnitude rank - value| =
      |units rank - value * 2 ^ 1074| / 2 ^ 1074 := by
    have scale : (0 : ℚ) < 2 ^ 1074 := by positivity
    rw [magnitude, eq_div_iff scale.ne', ← abs_of_pos scale, ← abs_mul, sub_mul,
      abs_of_pos scale, div_mul_cancel₀ _ scale.ne']
  have scale : (0 : ℚ) < 2 ^ 1074 := by positivity
  refine ⟨bounded, fun other within => ?_, fun other within apart same => ?_⟩
  · rcases eq_or_ne other rank with rfl | apart
    · exact le_rfl
    · rw [distance, distance]
      exact div_le_div_of_nonneg_right (beats other within apart).1 scale.le
  · rw [distance, distance, div_left_inj' scale.ne'] at same
    exact (beats other within apart).2 same

private theorem beats_of_le {value : ℚ} {rank other : Nat} (less : other < rank)
    (within : units rank ≤ value) : Beats value rank other := by
  have further : (units other : ℚ) < units rank := by exact_mod_cast units_strictMono less
  rw [Beats, abs_of_nonpos (by linarith), abs_of_nonpos (by linarith)]
  exact ⟨by linarith, fun same => absurd same (by linarith)⟩

theorem nearest_finiteRanks {value : ℚ}
    (overflow : units finiteRanks ≤ value * 2 ^ 1074) : Nearest value finiteRanks :=
  nearest_of_beats le_rfl fun _ within apart =>
    beats_of_le (Nat.lt_of_le_of_ne within apart) overflow

theorem nearest_zero {value : ℚ} (nonneg : 0 ≤ value)
    (underflow : value * 2 ^ 1074 < 1 / 2) : Nearest value 0 := by
  refine nearest_of_beats (Nat.zero_le _) fun other _ apart => ?_
  have scaled : 0 ≤ value * 2 ^ 1074 := by positivity
  have one : (1 : ℚ) ≤ units other := by
    exact_mod_cast (Nat.zero_le _).trans_lt (units_strictMono (Nat.pos_of_ne_zero apart))
  generalize value * 2 ^ 1074 = scaledValue at *
  rw [Beats, units_of_lt (by decide), Nat.cast_zero, zero_sub, abs_neg,
    abs_of_nonneg scaled, abs_of_nonneg (by linarith)]
  exact ⟨by linarith, fun same => absurd same (by linarith)⟩

theorem nearest_min {value : ℚ} {rank : Nat}
    (beats : ∀ other, other ≠ rank → Beats (value * 2 ^ 1074) rank other) :
    Nearest value (min rank finiteRanks) := by
  rcases Nat.lt_or_ge finiteRanks rank with beyond | within
  · rw [Nat.min_eq_right beyond.le]
    apply nearest_finiteRanks
    generalize value * 2 ^ 1074 = scaled at *
    have nearer := (beats finiteRanks beyond.ne).1
    have less : (units finiteRanks : ℚ) < units rank := by
      exact_mod_cast units_strictMono beyond
    by_contra under
    rw [not_le] at under
    rw [abs_of_pos (by linarith), abs_of_pos (by linarith)] at nearer
    linarith
  · rw [Nat.min_eq_left within]
    exact nearest_of_beats within fun other _ => beats other

private theorem cast_shiftLeft (value shift : Nat) :
    ((value <<< shift : Nat) : ℚ) = value * 2 ^ shift := by
  rw [Nat.shiftLeft_eq]
  push_cast
  rfl

theorem nearest_nearestRank (numerator : Nat) {denominator : Nat}
    (positive : 0 < denominator) :
    Nearest (numerator / denominator)
      (min (nearestRank numerator denominator) finiteRanks) := by
  apply nearest_min
  intro other apart
  have scaled : ((numerator : ℚ) / denominator) * (2 : ℚ) ^ 1074 =
      (numerator <<< 1074 : Nat) / denominator := by
    rw [cast_shiftLeft, div_mul_eq_mul_div]
  rw [scaled]
  exact nearestRank_beats numerator positive apart

/-! ## Bit patterns -/

def signBit (negative : Bool) : Nat :=
  if negative then 2 ^ 63 else 0

theorem toBits_zero (negative : Bool) :
    (zero negative).toBits = 0 + signBit negative := by
  cases negative <;> rfl

theorem toBits_infinity (negative : Bool) :
    (infinity negative).toBits = finiteRanks + signBit negative := by
  cases negative <;> rfl

theorem toBits_ofQuotient (negative : Bool) (numerator denominator : Nat) :
    (ofQuotient negative numerator denominator).toBits =
      min (nearestRank numerator denominator) finiteRanks + signBit negative := by
  simp only [ofQuotient]
  split
  · rename_i fits
    rw [Nat.min_eq_left fits.le]
    cases negative <;> rfl
  · rename_i beyond
    rw [Nat.min_eq_right (Nat.le_of_not_lt beyond), toBits_infinity]

end Binary64

end LispFront
