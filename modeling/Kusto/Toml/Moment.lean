import Kusto.Time.Reading

/-!
# Written dates and times of day

A date, a time of day, or a date with a time of day and an optional zone. Seconds may be left out.
Parts are read as the characters after them.
-/

open Kusto.Time (Date expect fixedNumber fraction stampGap zone)

namespace Kusto.Toml

/-- What follows a date that exists. -/
def afterDate? (cs : List Char) : Option (List Char) := do
  let (year, cs) ← fixedNumber 4 cs
  let (month, cs) ← fixedNumber 2 (← expect '-' cs)
  let (day, cs) ← fixedNumber 2 (← expect '-' cs)
  let date : Date := ⟨year, month, day⟩
  if date.isValid then some cs else none

/-- What follows the seconds, if there are any. -/
def afterSeconds? : List Char → Option (List Char)
  | ':' :: cs => do
    let (second, cs) ← fixedNumber 2 cs
    let (_, cs) ← fraction cs
    if second ≤ 60 then some cs else none
  | cs => some cs

/-- What follows a time of day. -/
def afterClock? (cs : List Char) : Option (List Char) := do
  let (hour, cs) ← fixedNumber 2 cs
  let (minute, cs) ← fixedNumber 2 (← expect ':' cs)
  if hour ≤ 23 ∧ minute ≤ 59 then afterSeconds? cs else none

/-- What follows the zone, if there is one. -/
def afterZone? : List Char → Option (List Char)
  | [] => some []
  | cs => (zone cs).map (·.2)

/-- A date and nothing else. -/
def isDate (cs : List Char) : Bool := afterDate? cs = some []

/-- A date, a time of day, or both. -/
def isMoment (cs : List Char) : Bool :=
  match afterDate? cs with
  | some [] => true
  | some rest => (do afterZone? (← afterClock? (← stampGap rest))) = some []
  | none => afterClock? cs = some []

example : isMoment "1979-05-27 07:32:00.5-08:00".toList ∧ isMoment "07:32".toList := by decide

example : ¬isMoment "1979-02-29".toList ∧ ¬isMoment "07:32Z".toList := by decide

end Kusto.Toml
