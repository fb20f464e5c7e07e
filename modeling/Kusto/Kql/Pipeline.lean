import Kusto.Kql.Expr

/-!
# Pipelines

A query is a source followed by stages, each after a bar.
-/

open Kusto.Text (joinWith)

namespace Kusto.Kql

/-- Where the rows come from. -/
inductive Source where
  | table (database : Option String) (name : String)
  | function (database : Option String) (name : String)
  /-- A text as it stands. -/
  | verbatim (text : String)
  /-- No source has been chosen. -/
  | missing
  deriving DecidableEq

namespace Source

/-- The text in the place of a missing source. -/
def missingText : String := "<table>"

/-- A call of `database` and a dot, where a database is named. -/
def databaseTokens : Option String → List Token
  | some db => .function "database" :: (Expr.inParens [.text db] ++ [.mark .dot])
  | none => []

def tokens : Source → List Token
  | table db name => databaseTokens db ++ [.identifier name]
  | function db name => databaseTokens db ++ .function name :: Expr.inParens []
  | verbatim text => [.verbatim text]
  | missing => [.verbatim missingText]

end Source

/-- A step of a pipeline. -/
inductive Stage where
  | filter (predicate : Expr)
  | summarize (aggregates keys : List Expr)
  | take (rows : Nat)

namespace Stage

/-- A space and the expression, for each with a comma between. -/
def listTokens (es : List Expr) : List Token :=
  joinWith [.mark .comma] (es.map fun e => .space :: e.tokens)

/-- The largest number of rows that can be written. -/
def rowLimit : Nat := Number.maxInt64

def tokens : Stage → List Token
  | filter predicate => .keyword .filter :: .space :: predicate.tokens
  | summarize aggregates keys =>
    .keyword .summarize :: (listTokens aggregates ++
      if keys.isEmpty then [] else .space :: .keyword .groupBy :: listTokens keys)
  | take rows => [.keyword .take, .space, .int (min rows rowLimit : Nat)]

/-- The text of a stage. -/
def text (s : Stage) : String := renderText s.tokens

end Stage

/-- A source and the steps after it. -/
structure Pipeline where
  source : Source
  stages : List Stage := []

namespace Pipeline

/-- Add a step at the end. -/
def push (p : Pipeline) (s : Stage) : Pipeline := { p with stages := p.stages ++ [s] }

@[simp] theorem source_push (p : Pipeline) (s : Stage) : (p.push s).source = p.source := rfl

@[simp] theorem stages_push (p : Pipeline) (s : Stage) : (p.push s).stages = p.stages ++ [s] := rfl

def filter (p : Pipeline) (predicate : Expr) : Pipeline := p.push (.filter predicate)

/-- A summary of nothing by nothing is left out. -/
def summarize (p : Pipeline) (aggregates keys : List Expr) : Pipeline :=
  if aggregates.isEmpty && keys.isEmpty then p else p.push (.summarize aggregates keys)

def take (p : Pipeline) (rows : Nat) : Pipeline := p.push (.take rows)

/-- The bar between two steps. -/
def bar : List Token := [.space, .mark .pipe, .space]

def tokens (p : Pipeline) : List Token :=
  p.source.tokens ++ p.stages.flatMap fun s => bar ++ s.tokens

/-- The text of a query. -/
def text (p : Pipeline) : String := renderText p.tokens

/-- The texts of the source and of each step. -/
def stageTexts (p : Pipeline) : List String :=
  renderText p.source.tokens :: p.stages.map Stage.text

end Pipeline

end Kusto.Kql
