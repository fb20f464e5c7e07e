import Kusto.Json.Value
import Kusto.Kql.Pipeline
import Kusto.Schema.Column

/-!
# Dynamic columns

A query that samples the values of dynamic columns, and the typed columns found in its answer.
-/

namespace Kusto.Schema

open Kql

/-- Rows that are sampled. -/
def sampleSize : Nat := 50000

/-- The query for the shapes of the values of some columns. -/
def discoveryQuery? (table : String) (columns : List String) : Option String :=
  if columns.isEmpty then none
  else
    let shape (c : String) : Expr :=
      .binary (.column c) "=" (.call "buildschema" [.column c])
    some (((Pipeline.mk (.table none table) []).take sampleSize).summarize (columns.map shape)
      []).text

/-- The key under which the shape of array elements stands. -/
def elementKey : String := "\x60indexer\x60"

/-- The first text among the values. -/
def firstText? (xs : List Json) : Option String := xs.findSome? Json.text?

mutual

/-- The columns below `path` in a shape. A text is a type, a list of types counts by its first,
and the shapes of array elements are left out. -/
def discovered (path : String) : Json → Columns
  | .obj ms => discoveredIn path ms
  | .str type => [⟨path, type⟩]
  | .arr types =>
    match firstText? types with
    | some type => [⟨path, type⟩]
    | none => []
  | _ => []
termination_by structural j => j

def discoveredIn (path : String) : List (String × Json) → Columns
  | [] => []
  | (k, v) :: ms =>
    (if k = elementKey then [] else discovered (path ++ "." ++ k) v) ++ discoveredIn path ms
termination_by structural ms => ms

end

end Kusto.Schema
