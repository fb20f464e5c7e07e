import Kusto.Json.Fields
import Kusto.Json.Printer
import Kusto.Vocabulary.ValueType

/-!
# Data tables

A result as it comes: columns of untyped cells under declared types.
-/

namespace Kusto.Result

/-- A column of cells. -/
structure DataColumn where
  name : String
  /-- The declared type. -/
  type : String
  cells : List Json := []
  deriving DecidableEq

namespace DataColumn

/-- The type of the values that the cells hold. -/
def valueType (c : DataColumn) : ValueType := .ofColumnType c.type

/-- The cells are dynamic values. -/
def isDynamic (c : DataColumn) : Bool := isDynamicType c.type

end DataColumn

/-- A set of columns. -/
structure DataTable where
  name : String := ""
  columns : List DataColumn
  deriving DecidableEq

namespace DataTable

/-- The number of rows, as the first column has it. -/
def rowCount (t : DataTable) : Nat :=
  match t.columns with
  | [] => 0
  | c :: _ => c.cells.length

/-- The first column of a name. -/
def column? (t : DataTable) (name : String) : Option DataColumn :=
  t.columns.find? (·.name = name)

end DataTable

/-- The text of a cell; nothing for null. -/
def cellText? : Json → Option String
  | .null => none
  | .str s => some s
  | v => some v.compact

/-! ## JSON form -/

def DataColumn.toJson (c : DataColumn) : Json :=
  .obj [("name", .str c.name), ("type", .str c.type), ("values", .arr c.cells)]

def DataColumn.ofJson? (j : Json) : Option DataColumn := do
  let ms ← j.record? ["name", "type", "values"]
  return {
    name := ← ms.required "name" Json.text?
    type := ← ms.required "type" Json.text?
    cells := ← ms.withDefault "values" [] Json.items? }

def DataTable.toJson (t : DataTable) : Json :=
  .obj [("name", .str t.name), ("columns", .arr (t.columns.map DataColumn.toJson))]

def DataTable.ofJson? (j : Json) : Option DataTable := do
  let ms ← j.record? ["name", "columns"]
  return {
    name := ← ms.text "name"
    columns := ← ms.required "columns" (Json.list? DataColumn.ofJson?) }

end Kusto.Result
