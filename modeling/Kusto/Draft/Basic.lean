import Kusto.Draft.Clause

/-!
# Drafts

What the editor builds: a source, a filter, aggregations and grouping keys.
-/

open Kusto.Json (Members)

namespace Kusto

open Draft

/-- A query as the editor builds it. -/
structure Draft where
  source : Option Property := none
  filter : Clause (Clause Condition) := {}
  aggregations : Clause Aggregation := {}
  groupings : Clause Grouping := {}
  deriving DecidableEq, Inhabited

namespace Draft

/-- A draft with a source of plain text type and nothing else. -/
def ofTable (name : String) : Draft := { source := some ⟨name, .string⟩ }

/-- The name of the source, if one has been chosen. -/
def sourceName? (d : Draft) : Option String :=
  match d.source with
  | some p => if p.name = "" then none else some p.name
  | none => none

/-! ## Stored form -/

/-- The node of a filter. -/
def filterNode (c : Clause (Clause Condition)) : Node :=
  c.toNode (Clause.toNode Condition.toNode)

def aggregationsNode (c : Clause Aggregation) : Node := c.toNode Aggregation.toNode

def groupingsNode (c : Clause Grouping) : Node := c.toNode Grouping.toNode

def toJson (d : Draft) : Json :=
  .obj (Json.present "from" (fun p => (Node.property p).toJson) d.source ++
    [("where", (filterNode d.filter).toJson),
      ("reduce", (aggregationsNode d.aggregations).toJson),
      ("groupBy", (groupingsNode d.groupings).toJson)])

def readSource (j : Json) : Except Fault Property := readAs Node.toProperty j

def readFilter (j : Json) : Except Fault (Clause (Clause Condition)) := readAs Node.toFilter j

def readAggregations (j : Json) : Except Fault (Clause Aggregation) :=
  readAs Node.toAggregations j

def readGroupings (j : Json) : Except Fault (Clause Grouping) := readAs Node.toGroupings j

/-- The clauses of a stored draft, in their order. -/
def fieldNames : List String := ["from", "where", "reduce", "groupBy"]

/-- A draft from its members. Missing clauses are empty; the first faulty one decides the error. -/
def ofMembers (ms : Members) : Except Fault Draft := do
  let source := readField ms "from" (orNull readSource)
  let filter := readField ms "where" readFilter
  let aggregations := readField ms "reduce" readAggregations
  let groupings := readField ms "groupBy" readGroupings
  firstFault ms [("from", source.bind fault?), ("where", filter.bind fault?),
    ("reduce", aggregations.bind fault?), ("groupBy", groupings.bind fault?)]
  return {
    source := ← getOr none source
    filter := ← getOr {} filter
    aggregations := ← getOr {} aggregations
    groupings := ← getOr {} groupings }

/-- A stored draft. -/
def ofJson (j : Json) : Except Fault Draft := readRecord fieldNames ofMembers j

/-- A stored draft, clause by clause: what cannot be read is left empty. -/
def ofClauses (j : Json) : Draft where
  source := (j.member? "from").bind fun v => (readSource v).toOption
  filter := ((j.member? "where").bind fun v => (readFilter v).toOption).getD {}
  aggregations := ((j.member? "reduce").bind fun v => (readAggregations v).toOption).getD {}
  groupings := ((j.member? "groupBy").bind fun v => (readGroupings v).toOption).getD {}

end Draft

end Kusto
