/-!
# The proleptic Gregorian calendar

Dates, and their numbers counted from 1 January 1970.
-/

namespace Kusto.Time

/-- A calendar date; `isValid` says whether it exists. -/
structure Date where
  year : Int
  month : Nat
  day : Nat
  deriving DecidableEq

/-- Every fourth year is a leap year, of the centuries every fourth. -/
def isLeapYear (y : Int) : Bool := y % 4 = 0 && (y % 100 != 0 || y % 400 = 0)

/-- The number of days of a month; none if there is no such month. -/
def daysInMonth (year : Int) (month : Nat) : Nat :=
  if month = 2 then (if isLeapYear year then 29 else 28)
  else if month ∈ [4, 6, 9, 11] then 30
  else if month ∈ [1, 3, 5, 7, 8, 10, 12] then 31
  else 0

/-- The years that dates are kept for. -/
def isKnownYear (y : Int) : Bool := -262143 ≤ y && y ≤ 262142

/-- The date exists. -/
def Date.isValid (d : Date) : Bool :=
  isKnownYear d.year && 1 ≤ d.day && d.day ≤ daysInMonth d.year d.month

/-- Days in a cycle of 400 years. -/
def cycleDays : Int := 146097

/-- Days from 1 March of the year 0 to 1 January 1970. -/
def epochDay : Int := 719468

/-- The number of a date. Years are counted from March, so that the leap day is the last. -/
def Date.toDay (d : Date) : Int :=
  let y := if d.month ≤ 2 then d.year - 1 else d.year
  let m : Int := if d.month ≤ 2 then d.month + 9 else (d.month : Int) - 3
  let cycle := y / 400
  let inCycle := y % 400
  let dayOfYear := (153 * m + 2) / 5 + (d.day - 1)
  cycle * cycleDays + (inCycle * 365 + inCycle / 4 - inCycle / 100 + dayOfYear) - epochDay

/-- The date of a number. -/
def Date.ofDay (n : Int) : Date :=
  let z := n + epochDay
  let cycle := z / cycleDays
  let inCycle := z % cycleDays
  let y := (inCycle - inCycle / 1460 + inCycle / 36524 - inCycle / 146096) / 365
  let dayOfYear := inCycle - (365 * y + y / 4 - y / 100)
  let m := (5 * dayOfYear + 2) / 153
  let day := dayOfYear - (153 * m + 2) / 5 + 1
  let month := if m < 10 then m + 3 else m - 9
  let year := y + cycle * 400 + if month ≤ 2 then 1 else 0
  ⟨year, month.toNat, day.toNat⟩

example : (Date.mk 1970 1 1).toDay = 0 ∧ Date.ofDay 0 = ⟨1970, 1, 1⟩ := by decide

example : (Date.mk 2024 2 29).isValid ∧ ¬(Date.mk 2023 2 29).isValid := by decide

end Kusto.Time
