import Kusto.Number.Numeral
import Kusto.Text.Blank
import Kusto.Time.Instant

/-!
# Written times

Two notations. A stamp has fixed widths and a zone. A local time has no zone, and its numbers may
be shorter and have blanks in front. Parts are read as a value and the characters after it.
-/

open Kusto.Number (digitsValue tenTo)
open Kusto.Text (trimLeft)

namespace Kusto.Time

/-- One character. -/
def expect (c : Char) : List Char → Option (List Char)
  | d :: cs => if d = c then some cs else none
  | [] => none

/-- A number of exactly `width` digits. -/
def fixedNumber (width : Nat) (cs : List Char) : Option (Nat × List Char) :=
  let digits := cs.take width
  if digits.length = width ∧ digits.all Char.isDigit then some (digitsValue digits, cs.drop width)
  else none

/-- A number of one digit or more, no more than `width` being taken. -/
def shortNumber (width : Nat) (cs : List Char) : Option (Nat × List Char) :=
  let digits := (cs.take width).takeWhile Char.isDigit
  if digits.isEmpty then none else some (digitsValue digits, cs.drop digits.length)

/-- A number with blanks in front. -/
def looseNumber (width : Nat) (cs : List Char) : Option (Nat × List Char) :=
  shortNumber width (trimLeft cs)

/-- An optional point with digits; from the tenth on they do not count. -/
def fraction : List Char → Option (Nat × List Char)
  | '.' :: cs =>
    let digits := cs.takeWhile Char.isDigit
    let kept := digits.take 9
    if digits.isEmpty then none
    else some (digitsValue kept * tenTo (9 - kept.length), cs.drop digits.length)
  | cs => some (0, cs)

/-- The time of a day. -/
structure Clock where
  hour : Nat
  minute : Nat
  second : Nat
  nano : Nat

/-- Sixty is the leap second of any minute. -/
def Clock.isValid (c : Clock) : Bool := c.hour ≤ 23 && c.minute ≤ 59 && c.second ≤ 60

/-- The instant of a date and a time of day in UTC. -/
def instantOf (d : Date) (c : Clock) : Instant :=
  let leap := c.second = 60
  let second := if leap then 59 else c.second
  ⟨d.toDay * secondsPerDay + (c.hour * 3600 + c.minute * 60 + second : Nat),
    c.nano + if leap then nanosPerSecond else 0⟩

/-! ## Stamps -/

/-- A zone: `Z`, or a sign, hours and minutes; its distance from UTC in seconds. -/
def zone : List Char → Option (Int × List Char)
  | 'Z' :: cs | 'z' :: cs => some (0, cs)
  | sign :: cs => do
    let factor : Int ←
      if sign = '+' then some 1 else if sign = '-' ∨ sign = '−' then some (-1) else none
    let (hours, cs) ← fixedNumber 2 cs
    let cs ← expect ':' cs
    let (minutes, cs) ← fixedNumber 2 cs
    if hours ≤ 23 ∧ minutes ≤ 59 then some (factor * (hours * 3600 + minutes * 60 : Nat), cs)
    else none
  | [] => none

/-- Between date and time stands a `T` or a space. -/
def stampGap : List Char → Option (List Char)
  | c :: cs => if c = 'T' ∨ c = 't' ∨ c = ' ' then some cs else none
  | [] => none

/-- A date, a time of day and a zone in fixed widths. -/
def stamp? (cs : List Char) : Option Instant := do
  let (year, cs) ← fixedNumber 4 cs
  let (month, cs) ← fixedNumber 2 (← expect '-' cs)
  let (day, cs) ← fixedNumber 2 (← expect '-' cs)
  let (hour, cs) ← fixedNumber 2 (← stampGap cs)
  let (minute, cs) ← fixedNumber 2 (← expect ':' cs)
  let (second, cs) ← fixedNumber 2 (← expect ':' cs)
  let (nano, cs) ← fraction cs
  let (offset, cs) ← zone cs
  let date : Date := ⟨year, month, day⟩
  let clock : Clock := ⟨hour, minute, second, nano⟩
  if cs.isEmpty ∧ date.isValid ∧ clock.isValid then
    let inZone := instantOf date clock
    some { inZone with second := inZone.second - offset }
  else none

/-! ## Local times -/

/-- A year of up to four digits, or of any length after a sign. -/
def looseYear (cs : List Char) : Option (Int × List Char) :=
  match trimLeft cs with
  | '-' :: rest => (shortNumber rest.length rest).map fun (n, more) => (-(n : Int), more)
  | '+' :: rest => (shortNumber rest.length rest).map fun (n, more) => ((n : Int), more)
  | rest => (shortNumber 4 rest).map fun (n, more) => ((n : Int), more)

/-- Year, month and day. -/
def looseDate (cs : List Char) : Option (Date × List Char) := do
  let (year, cs) ← looseYear cs
  let (month, cs) ← looseNumber 2 (← expect '-' cs)
  let (day, cs) ← looseNumber 2 (← expect '-' cs)
  let date : Date := ⟨year, month, day⟩
  if date.isValid then some (date, cs) else none

/-- Hour, minute and second up to the end of the text. -/
def looseClock? (cs : List Char) : Option Clock := do
  let (hour, cs) ← looseNumber 2 cs
  let (minute, cs) ← looseNumber 2 (← expect ':' cs)
  let (second, cs) ← looseNumber 2 (← expect ':' cs)
  let (nano, cs) ← fraction cs
  let clock : Clock := ⟨hour, minute, second, nano⟩
  if cs.isEmpty ∧ clock.isValid then some clock else none

/-- Date, `T`, time of day, taken as UTC. -/
def localTime? (cs : List Char) : Option Instant := do
  let (date, cs) ← looseDate cs
  return instantOf date (← looseClock? (← expect 'T' cs))

/-- Date, blanks, time of day, taken as UTC. -/
def spacedTime? (cs : List Char) : Option Instant := do
  let (date, cs) ← looseDate cs
  return instantOf date (← looseClock? (trimLeft cs))

/-- A date alone. -/
def date? (cs : List Char) : Option Date := do
  let (date, cs) ← looseDate cs
  if cs.isEmpty then some date else none

/-- A stamp, a local time in either form, or a date. -/
def isDateTime (cs : List Char) : Bool :=
  (stamp? cs).isSome || (localTime? cs).isSome || (spacedTime? cs).isSome || (date? cs).isSome

/-- A stamp or a local time with `T`. -/
def instant? (cs : List Char) : Option Instant := (stamp? cs).or (localTime? cs)

end Kusto.Time
