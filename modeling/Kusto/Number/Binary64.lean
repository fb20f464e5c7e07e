import Kusto.Number.Power

/-!
# Binary64 numbers

A finite number is a sign and the rank of its magnitude in the increasing list of all finite
magnitudes. `weight` gives the magnitude back as a multiple of `2 ^ (-1074)`, and `nearestRank`
rounds a quotient to the nearest magnitude, a tie going to the even rank.
-/

namespace Kusto.Number

/-- Nearest natural number to `num / den`; a half goes to the even neighbour. -/
def roundDiv (num den : Nat) : Nat :=
  let q := num / den
  let r := num % den
  if 2 * r < den then q else if den < 2 * r then q + 1 else q + q % 2

/-- The nearest number is the quotient or its successor. -/
theorem roundDiv_eq (num den : Nat) :
    roundDiv num den = num / den ∨ roundDiv num den = num / den + 1 := by
  unfold roundDiv
  dsimp only
  split
  · exact .inl rfl
  · split
    · exact .inr rfl
    · omega

namespace Binary64

/-- Number of magnitudes in one power-of-two interval. -/
def binade : Nat := 1 <<< 52

/-- Number of finite magnitudes. -/
def rankLimit : Nat := 2047 * binade

/-- The magnitude of a rank as a multiple of `2 ^ (-1074)`. -/
def weight (rank : Nat) : Nat :=
  if rank < binade then rank else (binade + rank % binade) <<< (rank / binade - 1)

@[simp] theorem weight_zero : weight 0 = 0 := by decide

/-- One over the unit of `weight`. -/
def unitsPerOne : Nat := 1 <<< 1074

/-- The rank whose magnitude is nearest to `num / den`, ties to the even rank. A rank of
`rankLimit` or more stands for an overflow. -/
def nearestRank (num den : Nat) : Nat :=
  let scaled := num * unitsPerOne
  let shift := (scaled / den).log2 - 52
  shift * binade + roundDiv scaled (den <<< shift)

/-- A number that is neither infinite nor NaN. Both zeros are present. -/
structure Finite where
  negative : Bool
  rank : Fin rankLimit
  deriving DecidableEq

end Binary64

/-- A binary64 number. -/
inductive Binary64 where
  | finite (value : Binary64.Finite)
  | infinite (negative : Bool)
  | nan
  deriving DecidableEq

namespace Binary64

/-- The zero of either sign. -/
def zero (negative : Bool) : Finite := ⟨negative, ⟨0, by decide⟩⟩

instance : Inhabited Finite := ⟨zero false⟩

/-- The number nearest to `± num / den`, infinite from half a step beyond the largest one. -/
def ofRatio (negative : Bool) (num den : Nat) : Binary64 :=
  let rank := nearestRank num den
  if h : rank < rankLimit then .finite ⟨negative, ⟨rank, h⟩⟩ else .infinite negative

/-- The number nearest to an integer. -/
def ofInt (n : Int) : Binary64 := ofRatio (decide (n < 0)) n.natAbs 1

/-- Number of decimal digits of a positive number; zero has one. -/
def decimalLength (n : Nat) : Nat := (Nat.toDigits 10 n).length

/-- The number nearest to `± digits · 10 ^ exponent`. Far outside the range of magnitudes the
answer is known without the power: from `10 ^ 400` on infinity, below `10 ^ (-400)` zero. -/
def ofDecimal (negative : Bool) (digits : Nat) (exponent : Int) : Binary64 :=
  let size := exponent + decimalLength digits
  if digits = 0 ∨ size < -400 then .finite (zero negative)
  else if 400 < size then .infinite negative
  else if 0 ≤ exponent then ofRatio negative (digits * tenTo exponent.toNat) 1
  else ofRatio negative digits (tenTo (-exponent).toNat)

/-- The finite number, if it is one. -/
def finite? : Binary64 → Option Finite
  | finite x => some x
  | _ => none

namespace Finite

/-- The magnitude in units. -/
def units (x : Finite) : Nat := weight x.rank.val

/-- The number with the other sign. -/
def neg (x : Finite) : Finite := { x with negative := !x.negative }

/-- Rounded product. -/
def times (x y : Finite) : Binary64 :=
  ofRatio (x.negative != y.negative) (x.units * y.units) (unitsPerOne * unitsPerOne)

/-- Rounded quotient by a number other than zero. -/
def quotient (x y : Finite) : Binary64 := ofRatio (x.negative != y.negative) x.units y.units

end Finite

end Binary64

end Kusto.Number
