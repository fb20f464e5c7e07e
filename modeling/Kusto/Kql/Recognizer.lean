import Kusto.Kql.Quoted
import Kusto.Text.Blank
import Kusto.Text.DecimalDigit
import Kusto.Text.Pieces

/-!
# Recognized values

What a value typed by a user may be besides plain text: a template variable, a timespan, a
relative time, a truth value. Blanks around it do not count.
-/

open Kusto.Text

namespace Kusto.Kql

/-- A character of a braced variable. -/
def isVariableChar (c : Char) : Bool := isWordChar c || c == '.' || c == ':'

/-- A dollar sign, then a word, or characters of a variable in braces. -/
def isVariable (cs : List Char) : Bool :=
  match cs with
  | '$' :: '\x7b' :: rest =>
    match rest.reverse with
    | '\x7d' :: name => !name.isEmpty && name.all isVariableChar
    | _ => false
  | '$' :: word => isWord word
  | _ => false

/-- The units of a timespan. -/
def timespanUnits : List String :=
  ["d", "h", "m", "s", "ms", "microsecond", "microseconds", "tick", "ticks"]

/-- `cs` is the unit of a timespan. -/
def isTimespanUnit (cs : List Char) : Bool := timespanUnits.any fun u => u.toList = cs

/-- Decimal digits of any script, optionally a point and more of them, then a unit. -/
def isTimespan (cs : List Char) : Bool :=
  let whole := cs.takeWhile isDecimalDigit
  !whole.isEmpty &&
    match cs.dropWhile isDecimalDigit with
    | '.' :: more =>
      !(more.takeWhile isDecimalDigit).isEmpty && isTimespanUnit (more.dropWhile isDecimalDigit)
    | unit => isTimespanUnit unit

/-- A template variable with blanks around it. -/
def isTemplateVariable (s : String) : Bool := isVariable (trimmed s.toList)

/-- A timespan with blanks around it. -/
def isTimespanLiteral (s : String) : Bool := isTimespan (trimmed s.toList)

/-- `now()` or `ago(...)` of a timespan with blanks around it. -/
def isRelative (cs : List Char) : Bool :=
  match cs with
  | 'a' :: 'g' :: 'o' :: '(' :: rest =>
    match rest.reverse with
    | ')' :: inner => isTimespan (trimmed inner.reverse)
    | _ => false
  | cs => cs = "now()".toList

/-- A relative time with blanks around it. -/
def isRelativeTime (s : String) : Bool := isRelative (trimmed s.toList)

/-- A truth value: `true`, `1`, `false` or `0`, in any letter case. -/
def truth? (s : String) : Option Bool :=
  let t := lower (trim s)
  if t = "true" ∨ t = "1" then some true
  else if t = "false" ∨ t = "0" then some false
  else none

end Kusto.Kql
