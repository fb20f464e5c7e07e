import Kusto.Compile.Parts
import Kusto.Draft.Basic
import Kusto.Kql.Pipeline

/-!
# Queries

A draft as a pipeline: the source, the time filter, the filter, the summary and the row limit.
Every draft has a query; what cannot be written becomes a marker with a warning.
-/

namespace Kusto.Compile

open Kql (Expr Source Pipeline)

/-- The name of the function that stands for the range of the dashboard. -/
def timeFilterName : String := "$__timeFilter"

/-- A call of a function. A text that brings its own arguments is taken as it stands. -/
def functionSource (database : Option String) (name : String) : Source :=
  if '(' ∈ name.toList then .verbatim name else .function database name

/-- The source behind an alias; another database is named. -/
def aliasSource (database : String) (a : Schema.Alias) : Source :=
  let db := if a.database = database then none else some a.database
  match a.kind with
  | .function => functionSource db a.name
  | .table | .view => .table db a.name

variable (ctx : Context) (d : Draft)

/-- The source of a draft, with the warning that there is none. -/
def sourceOf : Source × List Warning :=
  match d.sourceName?, ctx.alias? with
  | none, _ => (.missing, [.missingSource])
  | some _, some a => (aliasSource ctx.database a, [])
  | some name, none =>
    if (d.source.map Property.type) = some .function then (functionSource none name, [])
    else (.table none name, [])

/-- The time filter on the first column of times, if asked for. -/
def timeFilter? : Option Expr :=
  if ctx.options.timeFilter then
    ctx.columns.firstDateTime?.map fun c => .call timeFilterName [.column c.name]
  else none

/-- The groups of alternatives. -/
def filterPieces : List Piece := d.filter.items.filterMap (alternativesPiece? ctx)

def aggregationPieces : List Piece := d.aggregations.items.filterMap (aggregationPiece? ctx)

def groupingPieces : List Piece := d.groupings.items.filterMap (groupingPiece? ctx)

/-- The filter; nothing without alternatives. -/
def filter? : Option Expr :=
  let groups := filterPieces ctx d
  if groups.isEmpty then none else some (.combined .all (groups.map Piece.expr))

/-- Add a filter, if there is one. -/
def addFilter (p : Pipeline) : Option Expr → Pipeline
  | some e => p.filter e
  | none => p

/-- Add a row limit, if there is one. -/
def addLimit (p : Pipeline) : Option Nat → Pipeline
  | some n => p.take n
  | none => p

/-- The pipeline of a draft. -/
def pipeline : Pipeline :=
  let start : Pipeline := { source := (sourceOf ctx d).1 }
  let filtered := addFilter (addFilter start (timeFilter? ctx)) (filter? ctx d)
  let summary := filtered.summarize ((aggregationPieces ctx d).map Piece.expr)
    ((groupingPieces ctx d).map Piece.expr)
  addLimit summary ctx.options.limit

/-- The warnings about a draft, in the order of the query. -/
def warnings : List Warning :=
  (sourceOf ctx d).2 ++ Piece.allWarnings (filterPieces ctx d) ++
    Piece.allWarnings (aggregationPieces ctx d) ++ Piece.allWarnings (groupingPieces ctx d)

/-- A query with the warnings about it. -/
structure Output where
  pipeline : Pipeline
  warnings : List Warning

/-- The text of the query. -/
def Output.query (o : Output) : String := o.pipeline.text

/-- The query of a draft. -/
def compile : Output := ⟨pipeline ctx d, warnings ctx d⟩

end Kusto.Compile
