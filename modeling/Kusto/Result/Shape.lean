import Kusto.Result.Cell
import Kusto.Result.Frame

/-!
# Shaping

Tables as frames. A table is one frame; a time series is a frame for each combination of labels and
each numeric column; a series in arrays is a frame for each row and each column of numbers.
-/

open Kusto.Number (Binary64)
open Kusto.Text (joinTexts)
open Kusto.Time (Instant)

namespace Kusto.Result

/-! ## Times in order -/

/-- No instant comes before the one in front of it. -/
def ascending : List Instant → Bool
  | a :: b :: rest => !b.before a && ascending (b :: rest)
  | _ => true

/-- The times that are known do not go back. -/
def isNonDecreasing (times : List (Option Instant)) : Bool := ascending (times.filterMap id)

/-- The notice that times go back, if they do. -/
def timeNotices (field : String) (times : List (Option Instant)) : List Notice :=
  if isNonDecreasing times then [] else [.timeNotAscending field]

/-! ## Series -/

/-- The name of a series: its column, and its labels if there are any. -/
def seriesName (column : String) (labels : List Label) : String :=
  if labels.isEmpty then column
  else
    column ++ " \x7b " ++ joinTexts ", " (labels.map fun l => l.name ++ "=" ++ l.value) ++ " \x7d"

/-- A series of numbers over times. -/
def seriesFrame (timeName : String) (times : List (Option Instant)) (column : String)
    (numbers : List (Option Binary64)) (labels : List Label) : Frame where
  name := seriesName column labels
  fields := [{ name := timeName, values := .times times },
    { name := column, labels, values := .numbers numbers }]
  notices := timeNotices timeName times

/-- The label that a cell gives; null gives an empty one. -/
def cellLabel (column : String) (cell : Json) : Label := ⟨column, (cellText? cell).getD ""⟩

/-! ## Tables -/

/-- The typed values of a column. -/
def columnValues (c : DataColumn) : Except Fault Values :=
  match c.valueType with
  | .dateTime => (readTimes c.name c.cells).map .times
  | .number => (readNumbers c.name c.cells).map .numbers
  | .boolean => .ok (.booleans (c.cells.map Json.bool?))
  | _ => .ok (.texts (c.cells.map cellText?))

def columnField (c : DataColumn) : Except Fault Field := do
  return { name := c.name, values := ← columnValues c }

/-- The notices of a frame; they need a single field of times. -/
def tableNotices (fields : List Field) : List Notice :=
  match fields.filterMap fun f => f.values.times?.map (f.name, ·) with
  | [(name, times)] => timeNotices name times
  | _ => []

/-- A field for each column. -/
def tableFrame (t : DataTable) : Except Fault Frame := do
  let fields ← t.columns.mapM columnField
  return ⟨t.name, fields, tableNotices fields⟩

/-! ## Time series -/

/-- The labels of each of `rows` rows. -/
def labelRows (rows : Nat) (columns : List DataColumn) : List (List Label) :=
  columns.foldr (fun c rest => List.zipWith (· :: ·) (c.cells.map (cellLabel c.name)) rest)
    (List.replicate rows [])

/-- The values of the rows with the labels `labels`. -/
def withLabels {α : Type} (labels : List Label) (rows : List (List Label)) (values : List α) :
    List α :=
  (rows.zip values).filterMap fun r => if r.1 = labels then some r.2 else none

/-- Each value once, in the order of their first places. -/
def distinct {α : Type} [DecidableEq α] (xs : List α) : List α :=
  xs.foldl (fun seen x => if x ∈ seen then seen else seen ++ [x]) []

/-- The only column of times. -/
def timeColumn (t : DataTable) : Except Fault DataColumn :=
  match t.columns.filter (·.valueType = .dateTime) with
  | [] => .error .noTimeColumn
  | [c] => .ok c
  | cs => .error (.manyTimeColumns (cs.map DataColumn.name))

/-- The columns of numbers, at least one. -/
def numberColumns (t : DataTable) : Except Fault (List DataColumn) :=
  match t.columns.filter (·.valueType = .number) with
  | [] => .error .noValueColumn
  | cs => .ok cs

/-- The columns of texts, dynamic ones apart. -/
def textColumns (t : DataTable) : List DataColumn :=
  t.columns.filter fun c => c.valueType = .string && !c.isDynamic

/-- The frames of one combination of labels. -/
def labelFrames (timeName : String) (times : List (Option Instant))
    (numbers : List (String × List (Option Binary64))) (rows : List (List Label))
    (labels : List Label) : List Frame :=
  numbers.map fun (column, values) =>
    seriesFrame timeName (withLabels labels rows times) column (withLabels labels rows values)
      labels

/-- A frame for each combination of labels, in the order of their first rows, and each column of
numbers. -/
def timeSeries (t : DataTable) : Except Fault (List Frame) := do
  let time ← timeColumn t
  let columns ← numberColumns t
  let times ← readTimes time.name time.cells
  let numbers ← columns.mapM fun c => (readNumbers c.name c.cells).map (c.name, ·)
  let rows := labelRows t.rowCount (textColumns t)
  return (distinct rows).flatMap (labelFrames time.name times numbers rows)

/-! ## Series in arrays -/

/-- The name of the column of time arrays. -/
def timestampName : String := "Timestamp"

/-- The first array in the column holds numbers and nulls only. -/
def holdsNumbers (c : DataColumn) : Bool :=
  match c.cells.findSome? cellArray? with
  | some xs =>
    xs.all fun
      | .null | .num _ => true
      | _ => false
  | none => false

/-- No cell is an array. -/
def holdsNoArray (c : DataColumn) : Bool := c.cells.all fun v => v.items?.isNone

/-- The columns of number arrays. -/
def arrayColumns (t : DataTable) : List DataColumn :=
  t.columns.filter fun c => c.name ≠ timestampName && c.isDynamic && holdsNumbers c

/-- The columns of labels. -/
def scalarColumns (t : DataTable) : List DataColumn :=
  t.columns.filter fun c => c.name ≠ timestampName && (!c.isDynamic || holdsNoArray c)

/-- The array in a row; an empty one if there is none. -/
def arrayAt (c : DataColumn) (row : Nat) : List Json := ((c.cells[row]?).bind cellArray?).getD []

/-- The label that a column gives to a row. -/
def labelAt (row : Nat) (c : DataColumn) : Label := cellLabel c.name (c.cells[row]?.getD .null)

/-- The series of a column in a row; it has as many numbers as there are times. -/
def rowFrame (times : List (Option Instant)) (labels : List Label) (row : Nat) (c : DataColumn) :
    Except Fault Frame := do
  let numbers ← readNumbers c.name (arrayAt c row)
  if numbers.length ≠ times.length then throw (.length c.name times.length numbers.length)
  return seriesFrame timestampName times c.name numbers labels

/-- The series in a row. -/
def rowFrames (timestamps : DataColumn) (arrays scalars : List DataColumn) (row : Nat) :
    Except Fault (List Frame) := do
  let times ← readTimes timestamps.name (arrayAt timestamps row)
  arrays.mapM (rowFrame times (scalars.map (labelAt row)) row)

/-- A frame for each row and each column of number arrays. -/
def arraySeries (t : DataTable) : Except Fault (List Frame) := do
  match t.column? timestampName with
  | none => throw .noTimestampColumn
  | some timestamps =>
    let arrays := arrayColumns t
    if arrays.isEmpty then throw .noValueColumn
    let rows ← (List.range t.rowCount).mapM (rowFrames timestamps arrays (scalarColumns t))
    return rows.flatten

/-! ## All formats -/

/-- All columns are as long as the first. -/
def checkLengths (t : DataTable) : Except Fault Unit :=
  match t.columns.find? (·.cells.length ≠ t.rowCount) with
  | some c => .error (.length c.name t.rowCount c.cells.length)
  | none => .ok ()

/-- The frames of a table. -/
def shapeTable (format : ResultFormat) (t : DataTable) : Except Fault (List Frame) := do
  checkLengths t
  match format with
  | .table => return [← tableFrame t]
  | .timeSeries => timeSeries t
  | .arraySeries => arraySeries t

/-- The frames of all tables. The first table that does not fit fails the result. -/
def shape (format : ResultFormat) (ts : List DataTable) : Except Fault Shaped := do
  return ⟨format, (← ts.mapM (shapeTable format)).flatten⟩

end Kusto.Result
