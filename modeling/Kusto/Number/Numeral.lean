import Kusto.Number.Binary64

/-!
# Numerals in text

The grammars of integers and reals typed by a user. Digits are ASCII; nothing may stand around
a numeral.
-/

namespace Kusto.Number

/-- The value of a digit. -/
def digitValue (c : Char) : Nat := c.toNat - '0'.toNat

/-- The number that ASCII digits denote. -/
def digitsValue (cs : List Char) : Nat := cs.foldl (fun n c => 10 * n + digitValue c) 0

/-- `cs` is one ASCII digit or more. -/
def isDigits (cs : List Char) : Bool := !cs.isEmpty && cs.all Char.isDigit

/-- Split off an optional sign; `true` is a minus sign. -/
def splitSign : List Char → Bool × List Char
  | '-' :: cs => (true, cs)
  | '+' :: cs => (false, cs)
  | cs => (false, cs)

/-- An integer with the sign split off. -/
def signed (negative : Bool) (n : Nat) : Int := if negative then -(n : Int) else n

/-- Optional sign, then digits, within 64 signed bits. -/
def int64? (cs : List Char) : Option Int :=
  let (negative, digits) := splitSign cs
  let n := signed negative (digitsValue digits)
  if isDigits digits && isInt64 n then some n else none

/-- An optional exponent up to the end of the text. -/
def exponent? : List Char → Option Int
  | [] => some 0
  | c :: cs =>
    let (negative, digits) := splitSign cs
    if (c = 'e' ∨ c = 'E') ∧ isDigits digits then some (signed negative (digitsValue digits))
    else none

/-- Digits with an optional point, at least one digit, then an optional exponent. -/
def decimal? (negative : Bool) (cs : List Char) : Option Binary64 :=
  let whole := cs.takeWhile Char.isDigit
  let (fraction, rest) :=
    match cs.dropWhile Char.isDigit with
    | '.' :: more => (more.takeWhile Char.isDigit, more.dropWhile Char.isDigit)
    | more => ([], more)
  if whole.isEmpty && fraction.isEmpty then none
  else
    (exponent? rest).map fun e =>
      Binary64.ofDecimal negative (digitsValue (whole ++ fraction)) (e - fraction.length)

/-- Optional sign, then a decimal, `inf`, `infinity` or `nan`, the words in any letter case. -/
def binary64? (cs : List Char) : Option Binary64 :=
  let (negative, body) := splitSign cs
  let word := body.map Char.toLower
  if word = "inf".toList ∨ word = "infinity".toList then some (.infinite negative)
  else if word = "nan".toList then some .nan
  else decimal? negative body

end Kusto.Number
