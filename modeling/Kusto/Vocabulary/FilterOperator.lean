import Kusto.Vocabulary.ValueType

/-!
# Filter operators

The operators of a filter, the types that they apply to, and the form of their operands.
-/

open Kusto.Text

namespace Kusto

/-- How an operator stands to its operands. -/
inductive OperandForm where
  /-- `column op value` -/
  | single
  /-- `column op (v1, v2, ...)` -/
  | list
  /-- `column op (low .. high)` -/
  | range
  /-- `op(column)` -/
  | call
  deriving DecidableEq

/-- An operator of a filter. -/
structure FilterOperator where
  name : String
  form : OperandForm
  types : List ValueType
  deriving DecidableEq

namespace FilterOperator

open ValueType

/-- The types with an order. -/
def ordered : List ValueType := [number, dateTime, timeSpan]

/-- The types that a column can have. -/
def scalar : List ValueType := [number, string, boolean, dateTime, timeSpan]

/-- Text alone. -/
def texts : List ValueType := [string]

/-- All operators, in the order in which the editor offers them. -/
def all : List FilterOperator :=
  [⟨"==", .single, scalar⟩,
    ⟨"!=", .single, scalar⟩,
    ⟨">", .single, ordered⟩,
    ⟨">=", .single, ordered⟩,
    ⟨"<", .single, ordered⟩,
    ⟨"<=", .single, ordered⟩,
    ⟨"=~", .single, texts⟩,
    ⟨"!~", .single, texts⟩,
    ⟨"contains", .single, texts⟩,
    ⟨"!contains", .single, texts⟩,
    ⟨"contains_cs", .single, texts⟩,
    ⟨"startswith", .single, texts⟩,
    ⟨"!startswith", .single, texts⟩,
    ⟨"endswith", .single, texts⟩,
    ⟨"!endswith", .single, texts⟩,
    ⟨"has", .single, texts⟩,
    ⟨"!has", .single, texts⟩,
    ⟨"matches regex", .single, texts⟩,
    ⟨"in", .list, [number, string]⟩,
    ⟨"!in", .list, [number, string]⟩,
    ⟨"in~", .list, texts⟩,
    ⟨"has_any", .list, texts⟩,
    ⟨"has_all", .list, texts⟩,
    ⟨"between", .range, ordered⟩,
    ⟨"!between", .range, ordered⟩,
    ⟨"isempty", .call, texts⟩,
    ⟨"isnotempty", .call, texts⟩,
    ⟨"isnull", .call, scalar⟩,
    ⟨"isnotnull", .call, scalar⟩]

/-- The operator applies to a type. -/
def supports (o : FilterOperator) (t : ValueType) : Bool := t ∈ o.types

/-- The operator of a name; blanks around the name do not count. -/
def find? (name : String) : Option FilterOperator := all.find? (·.name = trim name)

/-- The operators for a type, in the order of `all`. -/
def offered (t : ValueType) : List FilterOperator := all.filter (·.supports t)

end FilterOperator

end Kusto
