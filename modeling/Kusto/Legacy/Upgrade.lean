import Kusto.Draft.Basic
import Kusto.Legacy.Shape

/-!
# Upgrading expressions

An expression of the older generation is rebuilt from its old nodes, each clause on its own. All
others stay as they are.
-/

open Kusto.Json (Members)

namespace Kusto.Legacy

/-! ## Nodes -/

/-- The type of an old field; what is no type name counts as text. -/
def fieldType (j : Option Json) : ValueType := (j.bind ValueType.ofJson?).getD .string

/-- The property that an old field names; nothing if the name is empty. -/
def property? (field : Json) : Option Json :=
  match field.member? "value" with
  | some (.str name) =>
    if name = "" then none
    else some (Property.toJson ⟨name, fieldType (field.member? "fieldType")⟩)
  | _ => none

/-- The property of the field of an old node. -/
def fieldOf? (node : Json) : Option Json := (node.member? "field").bind property?

/-- A member of an old operator that is kept unless it is null. -/
def keptMember (operator : Json) (key : String) : Members :=
  match operator.member? key with
  | none | some .null => []
  | some v => [(key, v)]

/-- The operator of an old condition; its name may be any value. -/
def operatorJson (node : Json) : Json :=
  let operator := (node.member? "operator").getD .null
  .obj (("name", (operator.member? "name").getD (.str "")) ::
    (keptMember operator "value" ++ keptMember operator "labelValue"))

/-- A condition from an old one. -/
def condition? (node : Json) : Option Json :=
  (fieldOf? node).map fun p =>
    .obj [("type", .str "operator"), ("property", p), ("operator", operatorJson node)]

/-- A text at the end of a path, else no characters. -/
def textAt (node : Json) (path : List String) : String :=
  ((node.path? path).bind Json.text?).getD ""

/-- The value is a parameter node. -/
def isParameter (j : Json) : Bool :=
  (j.member? "type").bind Json.text? = some "functionParameter"

/-- The parameters of an old aggregation, as they are. -/
def parametersOf (node : Json) : List Json :=
  (((node.member? "parameters").bind Json.items?).getD []).filter isParameter

/-- An aggregation from an old one. -/
def aggregation? (node : Json) : Option Json :=
  (fieldOf? node).map fun p =>
    let ps := parametersOf node
    .obj ([("type", .str "reduce"), ("property", p),
      ("reduce", Property.toJson ⟨textAt node ["reduce", "value"], .function⟩)] ++
      if ps.isEmpty then [] else [("parameters", .arr ps)])

/-- A grouping key from an old one. -/
def grouping? (node : Json) : Option Json :=
  (fieldOf? node).map fun p =>
    let width := textAt node ["interval", "value"]
    .obj ([("type", .str "groupBy"), ("property", p)] ++
      if width = "" then [] else [("interval", Property.toJson ⟨width, .interval⟩)])

/-- A source from an old one. -/
def source? (j : Json) : Option Json :=
  (property? ((j.member? "expression").getD j)).map fun p =>
    .obj [("type", .str "property"), ("property", p)]

/-! ## Clauses -/

/-- An old node of the tag `tag`. -/
def isOld (tag : String) (ms : Members) : Bool :=
  (ms.lookup "type").bind Json.text? = some tag && (ms.lookup "field").isSome

mutual

/-- The old nodes of a tag, depth first; nothing is looked for inside one. -/
def oldNodes (tag : String) : Json → List Json
  | .arr xs => oldNodesIn tag xs
  | .obj ms => if isOld tag ms then [.obj ms] else oldNodesBelow tag ms
  | _ => []
termination_by structural j => j

def oldNodesIn (tag : String) : List Json → List Json
  | [] => []
  | x :: xs => oldNodes tag x ++ oldNodesIn tag xs
termination_by structural xs => xs

/-- The old nodes among the children of a container. -/
def oldNodesBelow (tag : String) : List (String × Json) → List Json
  | [] => []
  | (k, v) :: ms => if k = "expressions" then oldNodes tag v else oldNodesBelow tag ms
termination_by structural ms => ms

end

/-- The old nodes of a clause, rebuilt; those without a field are dropped. -/
def rebuilt (ms : Members) (clause tag : String) (rebuild : Json → Option Json) : List Json :=
  match ms.lookup clause with
  | some v => (oldNodes tag v).filterMap rebuild
  | none => []

/-- A clause under a connective. -/
def clauseJson (c : Connective) (items : List Json) : Json :=
  .obj [("type", .str c.word), ("expressions", .arr items)]

/-- The clauses of an old expression rebuilt. -/
def rebuild (ms : Members) : Json :=
  let source := (ms.lookup "from").bind source?
  let conditions := rebuilt ms "where" "fieldAndOperator" condition?
  .obj (Json.present "from" id source ++
    [("where", clauseJson .all (conditions.map fun c => clauseJson .any [c])),
      ("reduce", clauseJson .all (rebuilt ms "reduce" "reduce" aggregation?)),
      ("groupBy", clauseJson .all (rebuilt ms "groupBy" "groupBy" grouping?))])

/-- A stored expression in the current generation. -/
def upgrade (j : Json) : Json :=
  if isLegacy j then rebuild (j.members?.getD []) else j

/-- The draft of a stored expression of any generation: read whole, or else clause by clause. -/
def loadDraft (j : Json) : Draft :=
  let current := upgrade j
  match Draft.ofJson current with
  | .ok d => d
  | .error _ => Draft.ofClauses current

end Kusto.Legacy
