/-! Binary floating-point numbers of 64 bits. The finite magnitudes are ranked from zero
upwards, and the rank of a magnitude is its bit pattern. The first `2 ^ 53` ranks stand
for as many units of `2 ^ -1074`; from there on, each further `2 ^ 52` ranks are spaced
twice as far apart as those before. -/

namespace LispFront

/-- How many ranks there are; the next pattern stands for infinity. -/
def finiteRanks : Nat := 2047 <<< 52

inductive Binary64 where
  | nan
  | infinity (negative : Bool)
  | finite (negative : Bool) (rank : Fin finiteRanks)
deriving DecidableEq

/-- The natural number nearest to a quotient; halfway between two of them, the even
one. -/
def roundQuotient (numerator denominator : Nat) : Nat :=
  let quotient := numerator / denominator
  let remainder := numerator % denominator
  if 2 * remainder < denominator then quotient
  else if denominator < 2 * remainder then quotient + 1
  else quotient + quotient % 2

namespace Binary64

def zero (negative : Bool) : Binary64 := .finite negative ⟨0, by decide⟩

/-- The magnitude of a rank, in units of `2 ^ -1074`. -/
def units (rank : Nat) : Nat :=
  if rank < 1 <<< 52 then rank else (1 <<< 52 + rank % 1 <<< 52) <<< (rank >>> 52 - 1)

/-- The rank nearest to a quotient, as if there were no largest one. The spacing is chosen
so that 53 binary places are left of the point. When rounding fills a 54th, the sum
carries into the next spacing. -/
def nearestRank (numerator denominator : Nat) : Nat :=
  let scaled := numerator <<< 1074
  let shift := (scaled / denominator).log2 + 1 - 53
  shift <<< 52 + roundQuotient scaled (denominator <<< shift)

def ofQuotient (negative : Bool) (numerator denominator : Nat) : Binary64 :=
  let rank := nearestRank numerator denominator
  if fits : rank < finiteRanks then .finite negative ⟨rank, fits⟩ else .infinity negative

def toBits : Binary64 → Nat
  | nan => finiteRanks + 1 <<< 51
  | infinity negative => finiteRanks + (if negative then 1 <<< 63 else 0)
  | finite negative rank => rank + (if negative then 1 <<< 63 else 0)

/-- One tenth is not exact, and its rank is even; the half of the least unit goes to
zero. -/
example : (ofQuotient false 1 10).toBits = 0x3fb999999999999a ∧
    (ofQuotient true 1 (1 <<< 1075)).toBits = 0x8000000000000000 ∧
    (ofQuotient false 3 (1 <<< 1075)).toBits = 2 := by decide +kernel

end Binary64

end LispFront
