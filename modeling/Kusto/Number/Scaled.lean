import Kusto.Number.Binary64

/-!
# Decimals read in two roundings

A decimal whose digits fit in 64 bits is read by rounding the digits to binary64 and then
multiplying or dividing by a rounded power of ten. The result can be one step away from the
nearest number; values beyond the largest finite number are refused.
-/

namespace Kusto.Number.Binary64

/-- The largest power of ten that is rounded to a finite number has this exponent. -/
def largestPower : Nat := 308

/-- `10 ^ k` rounded. -/
def power (k : Nat) : Finite := (ofRatio false (tenTo k) 1).finite?.getD (zero false)

/-- Divide by the largest power `n` times. -/
def shrink (x : Finite) : Nat → Finite
  | 0 => x
  | n + 1 => shrink ((x.quotient (power largestPower)).finite?.getD x) n

/-- `digits · 10 ^ exponent` for 64-bit digits, in two roundings; nothing beyond the largest
finite number. Divisors beyond the largest power are taken in steps of it, and after two such
steps every 64-bit number has become zero. -/
def scaled? (digits : Nat) (exponent : Int) : Option Finite := do
  let x ← (ofRatio false digits 1).finite?
  if digits = 0 then return x
  else if 0 ≤ exponent then
    if exponent ≤ largestPower then (x.times (power exponent.toNat)).finite? else none
  else
    let k := (-exponent).toNat
    let steps := (k - 1) / largestPower
    if 2 ≤ steps then return shrink x 2
    else ((shrink x steps).quotient (power (k - steps * largestPower))).finite?

end Kusto.Number.Binary64
