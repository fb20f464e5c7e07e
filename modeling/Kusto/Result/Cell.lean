import Kusto.Json.Reader
import Kusto.Number.Numeral
import Kusto.Result.DataTable
import Kusto.Time.Reading

/-!
# Cells

Cells read as times, numbers and arrays. A cell that is neither null nor of its type fails the
whole result.
-/

open Kusto.Number (Binary64 binary64? natText)
open Kusto.Text (joinTexts)
open Kusto.Time (Instant)

namespace Kusto.Result

/-- Why a table does not fit a format. -/
inductive Fault where
  | noTimeColumn
  | manyTimeColumns (names : List String)
  | noValueColumn
  | noTimestampColumn
  | length (column : String) (expected found : Nat)
  | time (column : String) (row : Nat) (cell : Json)
  | number (column : String) (row : Nat) (cell : Json)
  deriving DecidableEq

/-- A number in a message. -/
def countText (n : Nat) : String := String.ofList (natText n)

/-- Where a cell stands and what it holds. -/
def cellMessage (column : String) (row : Nat) (cell : Json) : String :=
  " in column " ++ column ++ " at row " ++ countText row ++ ": " ++ cell.compact

def Fault.message : Fault → String
  | noTimeColumn => "time series needs a datetime column, found none"
  | manyTimeColumns names =>
    "time series needs exactly one datetime column, found " ++ joinTexts ", " names
  | noValueColumn => "time series needs at least one numeric column"
  | noTimestampColumn => "ADX time series needs a column named Timestamp"
  | length column expected found =>
    "column " ++ column ++ " has " ++ countText found ++ " values, expected " ++ countText expected
  | time column row cell => "invalid timestamp" ++ cellMessage column row cell
  | number column row cell => "invalid number" ++ cellMessage column row cell

/-- A time: a stamp, a local time, or milliseconds since the start of 1970. -/
def cellTime? : Json → Option Instant
  | .str s => Time.instant? s.toList
  | .num n => n.int64?.bind Instant.ofMillis?
  | _ => none

/-- A number, also as a text. -/
def cellNumber? : Json → Option Binary64
  | .num n => some n.toBinary64
  | .str s => binary64? s.toList
  | _ => none

/-- A cell that may be null. -/
def readCell {α : Type} (read : Json → Option α) (fault : Json → Fault) :
    Json → Except Fault (Option α)
  | .null => .ok none
  | cell =>
    match read cell with
    | some v => .ok (some v)
    | none => .error (fault cell)

/-- Cells in a row, the first of them at row `row`. -/
def readCells {α : Type} (read : Json → Option α) (fault : Nat → Json → Fault) (row : Nat) :
    List Json → Except Fault (List (Option α))
  | [] => .ok []
  | c :: cs => do
    let v ← readCell read (fault row) c
    return v :: (← readCells read fault (row + 1) cs)

/-- The times in some cells of a column. -/
def readTimes (column : String) (cells : List Json) : Except Fault (List (Option Instant)) :=
  readCells cellTime? (Fault.time column) 0 cells

/-- The numbers in some cells of a column. -/
def readNumbers (column : String) (cells : List Json) : Except Fault (List (Option Binary64)) :=
  readCells cellNumber? (Fault.number column) 0 cells

/-- An array, also as a text of JSON. -/
def cellArray? : Json → Option (List Json)
  | .arr xs => some xs
  | .str s => (Json.read? s).bind Json.items?
  | _ => none

end Kusto.Result
