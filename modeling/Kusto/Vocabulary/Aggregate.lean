import Kusto.Vocabulary.ValueType

/-!
# Aggregate functions

The functions of a summary and what they expect.
-/

open Kusto.Text

namespace Kusto

/-- An aggregate function. -/
structure Aggregate where
  name : String
  /-- Meaningful on numeric columns only. -/
  numericOnly : Bool := false
  /-- The column is the first argument; `count` has none. -/
  takesColumn : Bool := true
  /-- The names of the arguments after the column. -/
  parameters : List String := []
  deriving DecidableEq

namespace Aggregate

/-- All functions, in the order in which the editor offers them. -/
def all : List Aggregate :=
  [⟨"count", false, false, []⟩,
    ⟨"dcount", false, true, []⟩,
    ⟨"sum", true, true, []⟩,
    ⟨"avg", true, true, []⟩,
    ⟨"min", false, true, []⟩,
    ⟨"max", false, true, []⟩,
    ⟨"stdev", true, true, []⟩,
    ⟨"variance", true, true, []⟩,
    ⟨"percentile", true, true, ["percentile"]⟩,
    ⟨"make_list", false, true, []⟩,
    ⟨"make_set", false, true, []⟩,
    ⟨"take_any", false, true, []⟩]

/-- The function of a name; blanks around the name do not count. -/
def find? (name : String) : Option Aggregate := all.find? (·.name = trim name)

/-- The function applies to a type. -/
def supports (a : Aggregate) (t : ValueType) : Bool := !a.numericOnly || t.isNumeric

/-- The functions for a type, in the order of `all`. -/
def offered (t : ValueType) : List Aggregate := all.filter (·.supports t)

end Aggregate

end Kusto
