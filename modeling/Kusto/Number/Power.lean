/-!
# Powers and sizes

Powers of ten weigh decimal digits. Powers of two are written as shifts, and the numbers of 64
bits have the range of the words that hold them.
-/

namespace Kusto.Number

/-- `1` with `k` zeros behind it. -/
def tenTo (k : Nat) : Nat := Nat.pow 10 k

/-- The largest 64-bit signed integer. -/
def maxInt64 : Nat := 9223372036854775807

/-- The 64-bit signed integers. -/
def isInt64 (n : Int) : Bool := -(maxInt64 + 1 : Int) ≤ n && n ≤ maxInt64

/-- The 64-bit integers, signed or not. -/
def isInteger64 (n : Int) : Bool := -(maxInt64 + 1 : Int) ≤ n && n < UInt64.size

/-- The 128-bit integers, signed or not. -/
def isInteger128 (n : Int) : Bool := -((1 <<< 127 : Nat) : Int) ≤ n && n < (1 <<< 128 : Nat)

end Kusto.Number
