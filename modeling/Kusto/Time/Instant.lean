import Kusto.Time.Calendar
import Kusto.Number.Layout

/-!
# Instants

A point of time in UTC, to the nanosecond. A leap second is the second before it with a thousand
million nanoseconds or more, so that instants are ordered by their two numbers.
-/

open Kusto.Number (natText)

namespace Kusto.Time

/-- A point of time. -/
structure Instant where
  /-- Seconds since the start of 1970. -/
  second : Int
  nano : Nat
  deriving DecidableEq

/-- Nanoseconds of a second. -/
def nanosPerSecond : Nat := 1000000000

def secondsPerDay : Int := 86400

namespace Instant

/-- `a` comes before `b`. -/
def before (a b : Instant) : Bool :=
  a.second < b.second || (a.second = b.second && a.nano < b.nano)

/-- The instant of a number of milliseconds since the start of 1970, for years that are kept. -/
def ofMillis? (ms : Int) : Option Instant :=
  if -8334601228800000 ≤ ms ∧ ms ≤ 8210266876799999 then
    some ⟨ms / 1000, (ms % 1000).toNat * 1000000⟩
  else none

/-- A number with zeros in front, `width` digits at least. -/
def padded (width n : Nat) : List Char :=
  let digits := natText n
  List.replicate (width - digits.length) '0' ++ digits

/-- A year: four digits, with a sign outside of 0 to 9999. -/
def yearChars (y : Int) : List Char :=
  if y < 0 then '-' :: padded 4 y.natAbs
  else if 9999 < y then '+' :: natText y.toNat
  else padded 4 y.toNat

/-- The fraction of a second in the fewest groups of three digits that lose nothing. -/
def fractionChars (nano : Nat) : List Char :=
  if nano = 0 then []
  else if nano % 1000000 = 0 then '.' :: padded 3 (nano / 1000000)
  else if nano % 1000 = 0 then '.' :: padded 6 (nano / 1000)
  else '.' :: padded 9 nano

/-- Date and time of day in UTC. -/
def chars (t : Instant) : List Char :=
  let date := Date.ofDay (t.second / secondsPerDay)
  let inDay := (t.second % secondsPerDay).toNat
  let second := inDay % 60 + t.nano / nanosPerSecond
  yearChars date.year ++ '-' :: padded 2 date.month ++ '-' :: padded 2 date.day ++
    'T' :: padded 2 (inDay / 3600) ++ ':' :: padded 2 (inDay / 60 % 60) ++ ':' :: padded 2 second ++
    fractionChars (t.nano % nanosPerSecond) ++ ['Z']

/-- Date and time of day in UTC. -/
def text (t : Instant) : String := String.ofList t.chars

end Instant

end Kusto.Time
