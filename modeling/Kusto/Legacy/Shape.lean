import Kusto.Json.Value

/-!
# Generations of stored expressions

Older editors stored other nodes, and no version. The generation of an expression shows in the
tags of the nodes in its clauses.
-/

namespace Kusto.Legacy

/-- The generation of a stored expression. -/
inductive Shape where
  /-- Old nodes only. -/
  | legacy
  /-- Old and current nodes. -/
  | ambiguous
  /-- Current nodes only, or none that can be told. -/
  | current
  deriving DecidableEq

/-- The generations of which nodes have been seen. -/
structure Marks where
  legacy : Bool := false
  current : Bool := false
  deriving DecidableEq

namespace Marks

/-- Seen here or there. -/
def join (a b : Marks) : Marks := ⟨a.legacy || b.legacy, a.current || b.current⟩

/-- What the members of one object show. -/
def ofMembers (ms : List (String × Json)) : Marks :=
  match (ms.lookup "type").bind Json.text? with
  | some tag =>
    if tag ∈ ["fieldAndOperator", "operatorRepeater", "field"] then ⟨true, false⟩
    else if tag ∈ ["operator", "property"] then ⟨false, true⟩
    else if tag ∈ ["reduce", "groupBy"] then
      ⟨(ms.lookup "field").isSome, (ms.lookup "property").isSome⟩
    else {}
  | none => {}

mutual

/-- What a value shows, with everything in it. -/
def ofJson : Json → Marks
  | .arr xs => ofItems xs
  | .obj ms => (ofMembers ms).join (ofValues ms)
  | _ => {}
termination_by structural j => j

def ofItems : List Json → Marks
  | [] => {}
  | x :: xs => (ofJson x).join (ofItems xs)
termination_by structural xs => xs

def ofValues : List (String × Json) → Marks
  | [] => {}
  | (_, v) :: ms => (ofJson v).join (ofValues ms)
termination_by structural ms => ms

end

end Marks

/-- The clauses of an expression. -/
def clauseNames : List String := ["from", "where", "reduce", "groupBy"]

/-- An old source names its table in an expression. -/
def sourceMarks (ms : List (String × Json)) : Marks :=
  match (ms.lookup "from").bind (Json.path? ["expression", "value"]) with
  | some (.str _) => ⟨true, false⟩
  | _ => {}

/-- What a clause shows. -/
def clauseMarks (ms : List (String × Json)) (clause : String) : Marks :=
  match ms.lookup clause with
  | some v => .ofJson v
  | none => {}

/-- What an expression shows. -/
def marks (ms : List (String × Json)) : Marks :=
  clauseNames.foldl (fun m c => m.join (clauseMarks ms c)) (sourceMarks ms)

/-- The generation of a stored expression. -/
def shape : Json → Shape
  | .obj ms =>
    match marks ms with
    | ⟨true, false⟩ => .legacy
    | ⟨true, true⟩ => .ambiguous
    | ⟨false, _⟩ => .current
  | _ => .current

/-- The expression is of the older generation. -/
def isLegacy (j : Json) : Bool := shape j = .legacy

end Kusto.Legacy
