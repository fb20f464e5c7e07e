import Kusto.Compile.Constant
import Kusto.Compile.Warning
import Kusto.Draft.Clause
import Kusto.Schema.Alias
import Kusto.Vocabulary.Aggregate
import Kusto.Vocabulary.BinWidth
import Kusto.Vocabulary.FilterOperator

/-!
# Parts of a query

Conditions, aggregations and grouping keys as expressions. A condition is written whole, or a
marker takes its place; the arguments of an aggregate function are marked one by one.
-/

open Kusto.Text (trim isBlankText joinTexts)

namespace Kusto.Compile

open Draft (Scalar Condition Aggregation Grouping Clause)
open Kql (Expr)

/-- What the user can set. -/
structure Options where
  /-- Restrict the first column of times to the range of the dashboard. -/
  timeFilter : Bool := false
  /-- The bin width where a grouping by time has none. -/
  defaultInterval : Option String := none
  /-- The largest number of rows. -/
  limit : Option Nat := none
  deriving DecidableEq, Inhabited

/-- What a draft is read against. -/
structure Context where
  columns : Columns := []
  /-- The database in which the query runs. -/
  database : String := ""
  /-- The alias through which the source was chosen. -/
  alias? : Option Schema.Alias := none
  options : Options := {}

variable (ctx : Context)

/-- A column, or a path into a dynamic column converted to the type of the property. -/
def reference (p : Property) : Expr :=
  match ctx.columns.dynamicPath? p.name with
  | some (root, keys) => .call p.type.conversion [.path root keys]
  | none => .column p.name

/-- A constant, or the warning that the value is none of its type. -/
def operand (name : String) (type : ValueType) (v : Scalar) : Except Warning Expr :=
  match constant? type v with
  | some e => .ok e
  | none => .error (.invalid name v.asText type)

/-! ## Conditions -/

/-- The values that an operator is applied to. -/
def operands (c : Condition) : List Scalar :=
  match c.operator.value with
  | some v => v.values
  | none => []

/-- A column compared with values. -/
def comparison (o : FilterOperator) (p : Property) (values : List Scalar) :
    Except Warning Expr :=
  let column := reference ctx p
  let constant := operand p.name p.type
  match o.form with
  | .call => .ok (.call o.name [column])
  | .single =>
    match values with
    | [] => .error (.invalid p.name "<none>" p.type)
    | v :: _ => do return .binary column o.name (← constant v)
  | .list =>
    if values.isEmpty then .error (.invalid p.name "<empty list>" p.type)
    else do return .membership column o.name (← values.mapM constant)
  | .range =>
    match values with
    | [low, high] => do return .range column o.name (← constant low) (← constant high)
    | vs => .error (.invalid p.name ("[" ++ joinTexts ", " (vs.map Scalar.asText) ++ "]") p.type)

/-- Property and operator are named. -/
def isComplete (c : Condition) : Bool :=
  !isBlankText c.property.name && !isBlankText c.operator.name

/-- A condition, or the warning about it. -/
def condition (c : Condition) : Except Warning Expr :=
  let p := c.property
  let name := trim c.operator.name
  match (FilterOperator.find? name).filter (·.supports p.type) with
  | some o => comparison ctx o p (operands c)
  | none => .error (.unsupported p.name name p.type)

/-- A condition in its place; nothing for an incomplete one. -/
def conditionPiece? (c : Condition) : Option Piece :=
  if isComplete c then some (.ofResult (condition ctx c)) else none

/-- Alternatives in parentheses; nothing if no condition is complete. -/
def alternativesPiece? (g : Clause Condition) : Option Piece :=
  let pieces := g.items.filterMap (conditionPiece? ctx)
  if pieces.isEmpty then none
  else some ⟨.paren (.combined .any (pieces.map Piece.expr)), Piece.allWarnings pieces⟩

/-! ## Aggregations -/

/-- The arguments after the column, with a marker for the first that is missing. -/
def argumentPieces (f : Aggregate) (ps : List Draft.Parameter) : List Piece :=
  let given := ps.map fun q => Piece.ofResult (operand q.name q.type q.value)
  match f.parameters[ps.length]? with
  | some missing => given ++ [.ofResult (.error (.invalid missing "<missing>" .number))]
  | none => given

/-- The warning about a function of numbers over other values. -/
def mismatches (f : Aggregate) (p : Property) : List Warning :=
  if f.numericOnly && !p.type.isNumeric then [.mismatch p.name f.name p.type] else []

/-- An aggregation; nothing if function or column are not chosen. -/
def aggregationPiece? (a : Aggregation) : Option Piece :=
  let p := a.property
  let name := trim a.function.name
  if name = "" then none
  else
    match Aggregate.find? name with
    | none => some (.ofResult (.error (.unsupported p.name name p.type)))
    | some f =>
      if !f.takesColumn then some ⟨.call f.name [], []⟩
      else if isBlankText p.name || p.name = "*" then none
      else
        let args := argumentPieces f a.parameters
        some ⟨.call f.name (reference ctx p :: args.map Piece.expr),
          mismatches f p ++ Piece.allWarnings args⟩

/-! ## Grouping keys -/

/-- The width chosen for a key, else the default. -/
def widthOf (g : Grouping) : String :=
  let standard := ctx.options.defaultInterval.getD BinWidth.standard
  match g.interval with
  | some p => if isBlankText p.name then standard else trim p.name
  | none => standard

/-- A bin width. -/
def width? (s : String) : Option Expr :=
  if Kql.isTemplateVariable s then some (.template (trim s))
  else if Kql.isTimespanLiteral s then some (.literal (.timeSpan (trim s)))
  else none

/-- A grouping key, times in bins; nothing if no column is chosen. -/
def groupingPiece? (g : Grouping) : Option Piece :=
  let p := g.property
  let column := reference ctx p
  if isBlankText p.name then none
  else if p.type ≠ .dateTime then some ⟨column, []⟩
  else
    let w := widthOf ctx g
    match width? w with
    | some e => some ⟨.call "bin" [column, e], []⟩
    | none => some (.ofResult (.error (.invalid p.name w p.type)))

end Kusto.Compile
