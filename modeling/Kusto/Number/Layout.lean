import Kusto.Number.Shortest

/-!
# Written numbers

Integers are written in decimal. A finite binary64 number is written with its shortest digits,
positionally or with an exponent as a `Layout` says.
-/

namespace Kusto.Number

/-- Decimal digits of a natural number. -/
def natText (n : Nat) : List Char := Nat.toDigits 10 n

/-- An integer in decimal, with a minus sign if negative. -/
def intText (n : Int) : List Char :=
  if n < 0 then '-' :: natText n.natAbs else natText n.natAbs

/-- How a real number is laid out. `d.ddd · 10 ^ k` is positional for `least ≤ k < limit`. -/
structure Layout where
  least : Int
  limit : Int
  /-- A plus sign stands before a non-negative exponent. -/
  plus : Bool

/-- Digits with a point, `k` being the power of ten of the first digit. -/
def positional (digits : List Char) (k : Int) : List Char :=
  if k < 0 then
    '0' :: '.' :: (List.replicate (-k - 1).toNat '0' ++ digits)
  else
    let whole := k.toNat + 1
    if digits.length ≤ whole then
      digits ++ List.replicate (whole - digits.length) '0' ++ ['.', '0']
    else digits.take whole ++ '.' :: digits.drop whole

/-- One digit, a point if more follow, and the exponent. -/
def exponential (plus : Bool) (digits : List Char) (k : Int) : List Char :=
  let mantissa :=
    match digits with
    | d :: e :: rest => d :: '.' :: e :: rest
    | short => short
  let sign := if plus && 0 ≤ k then ['+'] else []
  mantissa ++ 'e' :: (sign ++ intText k)

/-- A decimal laid out. -/
def Layout.decimal (layout : Layout) (d : Binary64.Decimal) : List Char :=
  let digits := natText d.digits
  let k := d.exponent + digits.length - 1
  if layout.least ≤ k ∧ k < layout.limit then positional digits k
  else exponential layout.plus digits k

/-- A finite number laid out. -/
def Layout.finite (layout : Layout) (x : Binary64.Finite) : List Char :=
  let body := layout.decimal x.shortest
  if x.negative then '-' :: body else body

end Kusto.Number
