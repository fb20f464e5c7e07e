import Kusto.Number.Binary64

/-!
# Shortest decimals

The shortest decimal of a number is taken from the coarsest power-of-ten grid that meets the
interval of reals rounding to the number; of two grid points the nearer one, of two equally near
the even one.
-/

namespace Kusto.Number.Binary64

/-- Digits of a positive magnitude and the power of ten of the last digit. -/
structure Decimal where
  digits : Nat
  exponent : Int
  deriving DecidableEq

/-- `lo / scale` to `hi / scale` are the reals that round to a rank, `mid / scale` is its
magnitude; the ends belong to it exactly at even ranks. -/
structure Window where
  lo : Nat
  mid : Nat
  hi : Nat
  scale : Nat
  closed : Bool

/-- The reals that round to `rank`, for a rank other than zero. -/
def window (rank : Nat) : Window where
  lo := weight (rank - 1) + weight rank
  mid := 2 * weight rank
  hi := weight rank + weight (rank + 1)
  scale := 2 * unitsPerOne
  closed := rank % 2 = 0

namespace Window

/-- The same reals measured in units of `10 ^ exponent`. -/
def measuredIn (w : Window) (exponent : Int) : Window :=
  if 0 ≤ exponent then { w with scale := w.scale * tenTo exponent.toNat }
  else
    let p := tenTo (-exponent).toNat
    { w with lo := w.lo * p, mid := w.mid * p, hi := w.hi * p }

/-- `n` lies in the window. -/
def holds (w : Window) (n : Nat) : Bool :=
  let x := n * w.scale
  if w.closed then w.lo ≤ x && x ≤ w.hi else w.lo < x && x < w.hi

/-- The integer of the window nearest to its middle, if the window holds one of the two
integers around the middle. -/
def nearest? (w : Window) : Option Nat :=
  let below := w.mid / w.scale
  let above := below + 1
  let nearer := roundDiv w.mid w.scale
  if w.holds nearer then some nearer
  else if w.holds below then some below
  else if w.holds above then some above
  else none

/-- The point of the grid of multiples of `10 ^ exponent`. -/
def onGrid (w : Window) (exponent : Int) : Option Decimal :=
  (w.measuredIn exponent).nearest?.map (⟨·, exponent⟩)

/-- The power of ten just above the middle. -/
def ceiling (w : Window) : Int :=
  if w.scale ≤ w.mid then decimalLength (w.mid / w.scale)
  else 1 - (decimalLength ((w.scale - 1) / w.mid) : Int)

end Window

/-- Drop final zeros, at most `fuel` of them. -/
def dropZeros (fuel : Nat) (d : Decimal) : Decimal :=
  match fuel with
  | 0 => d
  | n + 1 => if d.digits % 10 = 0 then dropZeros n ⟨d.digits / 10, d.exponent + 1⟩ else d

/-- The shortest decimal of a rank other than zero. Eighteen grids are enough, since seventeen
digits tell all numbers apart. -/
def shortestOfRank (rank : Nat) : Decimal :=
  let w := window rank
  let top := w.ceiling
  let found := (List.range 18).findSome? fun (i : Nat) => w.onGrid (top - i)
  dropZeros 20 (found.getD ⟨0, 0⟩)

/-- The shortest decimal of a magnitude; `0` for zero. -/
def Finite.shortest (x : Finite) : Decimal :=
  if x.rank.val = 0 then ⟨0, 0⟩ else shortestOfRank x.rank.val

end Kusto.Number.Binary64
