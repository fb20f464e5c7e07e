import Kusto.Text.Pieces
import Kusto.Vocabulary.ValueType

/-!
# Columns

The columns of a source. A dotted name whose first part is a dynamic column is a path into it.
-/

open Kusto.Text (pieces)

namespace Kusto

/-- A column and its declared type. -/
structure Column where
  name : String
  type : String := ""
  deriving DecidableEq, Inhabited

namespace Column

/-- The column holds dynamic values. -/
def isDynamic (c : Column) : Bool := isDynamicType c.type

/-- The type of the column's values. -/
def valueType (c : Column) : ValueType := .ofColumnType c.type

/-- The column as an option. -/
def choice (c : Column) : Choice := .plain c.name c.valueType

end Column

/-- The columns of a source, in declared order. A source that is not known has none. -/
abbrev Columns := List Column

namespace Columns

/-- The first column of a name. -/
def find? (cs : Columns) (name : String) : Option Column := List.find? (·.name = name) cs

/-- The first column of times. -/
def firstDateTime? (cs : Columns) : Option Column := List.find? (·.valueType = .dateTime) cs

/-- The dynamic column and the keys that a dotted name stands for. -/
def dynamicPath? (cs : Columns) (name : String) : Option (String × List String) :=
  match (pieces '.' name.toList).map String.ofList with
  | root :: key :: keys =>
    if "" ∈ key :: keys then none
    else
      match cs.find? root with
      | some c => if c.isDynamic then some (root, key :: keys) else none
      | none => none
  | _ => none

/-- Add a column, unless there is one of its name. -/
def add (cs : Columns) (c : Column) : Columns := if (cs.find? c.name).isSome then cs else cs ++ [c]

/-- Add columns one after the other. -/
def addAll (cs new : Columns) : Columns := new.foldl add cs

/-- The columns as options. -/
def choices (cs : Columns) : List Choice := cs.map Column.choice

end Columns

end Kusto
