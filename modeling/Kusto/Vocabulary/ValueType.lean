import Kusto.Text.Blank
import Kusto.Text.Pieces

/-!
# Value types

The types that a column, a literal, a function or a bin width can have. Each has a stored name;
unknown names read as `string`.
-/

open Kusto.Text

namespace Kusto

/-- The type of a property. -/
inductive ValueType where
  | number
  | string
  | boolean
  | dateTime
  | timeSpan
  | function
  | interval
  deriving DecidableEq, Inhabited

namespace ValueType

/-- All types, in the order of their declaration. -/
def all : List ValueType := [number, string, boolean, dateTime, timeSpan, function, interval]

/-- The name under which a type is stored. -/
def name : ValueType → String
  | number => "number"
  | string => "string"
  | boolean => "boolean"
  | dateTime => "dateTime"
  | timeSpan => "timeSpan"
  | function => "function"
  | interval => "interval"

/-- The name of a type in messages. -/
def title : ValueType → String
  | number => "Number"
  | string => "String"
  | boolean => "Boolean"
  | dateTime => "DateTime"
  | timeSpan => "TimeSpan"
  | function => "Function"
  | interval => "Interval"

/-- The type of a stored name. -/
def ofName (s : String) : ValueType := (all.find? (·.name = s)).getD string

@[simp] theorem ofName_name (t : ValueType) : ofName t.name = t := by
  cases t <;> decide

/-- The type of the values of a column, from the column's declared type. -/
def ofColumnType (declared : String) : ValueType :=
  let s := lower (trim declared)
  if s ∈ ["int", "long", "real", "double", "decimal", "float"] then number
  else if s ∈ ["bool", "boolean"] then boolean
  else if s ∈ ["datetime", "date"] then dateTime
  else if s ∈ ["timespan", "time"] then timeSpan
  else string

/-- The function that converts a dynamic value to a type. -/
def conversion : ValueType → String
  | number => "todouble"
  | boolean => "tobool"
  | dateTime => "todatetime"
  | timeSpan => "totimespan"
  | string | function | interval => "tostring"

def isNumeric : ValueType → Bool
  | number => true
  | _ => false

end ValueType

/-- A declared column type is dynamic, in any letter case. -/
def isDynamicType (declared : String) : Bool := lower declared = "dynamic"

/-- A named, typed reference to a column, a table, a function or a bin width. -/
structure Property where
  name : String
  type : ValueType := .string
  deriving DecidableEq, Inhabited

/-- An option offered by the editor: the label shown, the value stored and its type. -/
structure Choice where
  label : String
  value : String
  type : ValueType
  deriving DecidableEq

/-- An option that shows its value. -/
def Choice.plain (value : String) (type : ValueType) : Choice := ⟨value, value, type⟩

/-- The reference that an option stores. -/
def Choice.property (c : Choice) : Property := ⟨c.value, c.type⟩

end Kusto
