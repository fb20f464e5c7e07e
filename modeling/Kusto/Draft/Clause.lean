import Kusto.Draft.Node

/-!
# Clauses

What nodes stand for: conditions, aggregations, groupings, and clauses of them. Each is written as
a node and read back from one.
-/

namespace Kusto.Draft

/-- A column compared with an operand. -/
structure Condition where
  property : Property
  operator : Operator
  deriving DecidableEq

/-- An aggregate function over a column. -/
structure Aggregation where
  property : Property
  function : Property
  parameters : List Parameter := []
  deriving DecidableEq

/-- A grouping key, with a bin width for times. -/
structure Grouping where
  property : Property
  interval : Option Property := none
  deriving DecidableEq

/-- Items under one connective. -/
structure Clause (α : Type) where
  connective : Connective := .all
  items : List α := []
  deriving DecidableEq

instance {α : Type} : Inhabited (Clause α) := ⟨{}⟩

/-- Items of which one must hold. -/
def Clause.any {α : Type} (items : List α) : Clause α := ⟨.any, items⟩

/-- Items all of which must hold. -/
def Clause.all {α : Type} (items : List α) : Clause α := ⟨.all, items⟩

/-! ## As nodes -/

def Condition.toNode (c : Condition) : Node := .operator c.property c.operator

def Aggregation.toNode (a : Aggregation) : Node := .reduce a.property a.function a.parameters

def Grouping.toNode (g : Grouping) : Node := .groupBy g.property g.interval

def Clause.toNode {α : Type} (item : α → Node) (c : Clause α) : Node :=
  .clause c.connective (c.items.map item)

/-! ## From nodes -/

namespace Node

def toProperty : Node → Except Fault Property
  | property p => .ok p
  | n => .error (.unexpected .property n.kind)

def toCondition : Node → Except Fault Condition
  | operator p o => .ok ⟨p, o⟩
  | n => .error (.unexpected .operator n.kind)

def toAggregation : Node → Except Fault Aggregation
  | reduce p f ps => .ok ⟨p, f, ps⟩
  | n => .error (.unexpected .reduce n.kind)

def toGrouping : Node → Except Fault Grouping
  | groupBy p i => .ok ⟨p, i⟩
  | n => .error (.unexpected .groupBy n.kind)

/-- A clause under the connective `expected`, its children read from left to right. -/
def toClause {α : Type} (expected : Connective) (item : Node → Except Fault α) :
    Node → Except Fault (Clause α)
  | clause c children =>
    if c = expected then do return ⟨c, ← children.mapM item⟩
    else .error (.unexpected (.clause expected) (.clause c))
  | n => .error (.unexpected (.clause expected) n.kind)

/-- Alternatives of a filter. -/
def toAlternatives : Node → Except Fault (Clause Condition) := toClause .any toCondition

/-- A filter: a conjunction of alternatives. -/
def toFilter : Node → Except Fault (Clause (Clause Condition)) := toClause .all toAlternatives

def toAggregations : Node → Except Fault (Clause Aggregation) := toClause .all toAggregation

def toGroupings : Node → Except Fault (Clause Grouping) := toClause .all toGrouping

end Node

/-- A stored node, then what it stands for. -/
def readAs {α : Type} (view : Node → Except Fault α) (j : Json) : Except Fault α := do
  view (← Node.ofJson j)

end Kusto.Draft
