import Kusto.Number.Numeral
import Kusto.Toml.Moment

/-!
# TOML values

Values, and the bare words that denote numbers, truth values and times.
-/

open Kusto.Number

namespace Kusto

/-- A TOML value. Reals and times are told apart from the others, but not from each other. -/
inductive Toml where
  | text (value : String)
  | integer (value : Int)
  | bool (value : Bool)
  | real
  | time
  | array (items : List Toml)
  | table (entries : List (String × Toml))

namespace Toml

instance : Inhabited Toml := ⟨table []⟩

/-- Digits of a class with single underscores between them; the digits without them. -/
def underscored? (isDigit : Char → Bool) : List Char → Option (List Char)
  | [] => none
  | [c] => if isDigit c then some [c] else none
  | c :: '_' :: cs => if isDigit c then (underscored? isDigit cs).map (c :: ·) else none
  | c :: cs => if isDigit c then (underscored? isDigit cs).map (c :: ·) else none

/-- The value of a digit of a base up to sixteen. -/
def baseDigit (c : Char) : Nat :=
  if c.isDigit then digitValue c else 10 + (c.toLower.toNat - 'a'.toNat)

/-- A digit of a base up to sixteen. -/
def isBaseDigit (base : Nat) (c : Char) : Bool :=
  (c.isDigit || ('a' ≤ c.toLower && c.toLower ≤ 'f')) && baseDigit c < base

/-- An integer in a base. -/
def inBase? (base : Nat) (cs : List Char) : Option Int :=
  (underscored? (isBaseDigit base) cs).map fun ds =>
    ((ds.foldl (fun n c => base * n + baseDigit c) 0 : Nat) : Int)

/-- Decimal digits without a superfluous zero in front. -/
def decimalDigits? (cs : List Char) : Option (List Char) := do
  let ds ← underscored? Char.isDigit cs
  if ds.length = 1 ∨ ds.head? ≠ some '0' then some ds else none

/-- An integer of any size. -/
def wholeNumber? (cs : List Char) : Option Int :=
  match cs with
  | '0' :: 'x' :: ds => inBase? 16 ds
  | '0' :: 'o' :: ds => inBase? 8 ds
  | '0' :: 'b' :: ds => inBase? 2 ds
  | _ =>
    let (negative, ds) := splitSign cs
    (decimalDigits? ds).map fun ds => signed negative (digitsValue ds)

/-- An integer, which must fit in 128 bits. -/
def integer? (cs : List Char) : Option Int := (wholeNumber? cs).filter isInteger128

/-- An exponent up to the end of the word. -/
def isExponent : List Char → Bool
  | c :: cs => (c == 'e' || c == 'E') && (underscored? Char.isDigit (splitSign cs).2).isSome
  | [] => false

/-- A decimal with a fraction, an exponent or both. -/
def isDecimal (cs : List Char) : Bool :=
  let inNumber (c : Char) : Bool := c.isDigit || c == '_'
  (decimalDigits? (cs.takeWhile inNumber)).isSome &&
    match cs.dropWhile inNumber with
    | '.' :: more =>
      let rest := more.dropWhile inNumber
      (underscored? Char.isDigit (more.takeWhile inNumber)).isSome &&
        (rest.isEmpty || isExponent rest)
    | rest => isExponent rest

/-- A real number. One that is written in digits must not be too large. -/
def isReal (cs : List Char) : Bool :=
  let body := (splitSign cs).2
  body = "inf".toList || body = "nan".toList ||
    isDecimal body &&
      ((decimal? false (body.filter (· != '_'))).bind Binary64.finite?).isSome

/-- The value that a bare word denotes. -/
def bare? (cs : List Char) : Option Toml :=
  if cs = "true".toList then some (bool true)
  else if cs = "false".toList then some (bool false)
  else
    match integer? cs with
    | some n => some (integer n)
    | none => if isReal cs then some real else if isMoment cs then some time else none

end Toml

end Kusto
