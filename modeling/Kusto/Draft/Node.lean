import Kusto.Draft.Operand
import Kusto.Vocabulary.Connective

/-!
# Nodes

The stored form of every part of a draft. A node carries a tag that names its kind; `ofJson` reads
a node with everything below it. A node may also be stored as a list, of its tag and then its
fields in their order.
-/

open Kusto.Json (Members)

namespace Kusto.Draft

/-- Any part of a draft. -/
inductive Node where
  | property (property : Property)
  | operator (property : Property) (operator : Operator)
  | reduce (property function : Property) (parameters : List Parameter)
  | groupBy (property : Property) (interval : Option Property)
  | parameter (parameter : Parameter)
  | clause (connective : Connective) (children : List Node)

/-- The kinds of nodes. -/
inductive Kind where
  | property
  | operator
  | reduce
  | groupBy
  | parameter
  | clause (connective : Connective)
  deriving DecidableEq

namespace Kind

/-- The tag of a kind. -/
def tag : Kind → String
  | property => "property"
  | operator => "operator"
  | reduce => "reduce"
  | groupBy => "groupBy"
  | parameter => "functionParameter"
  | clause c => c.word

/-- All kinds. -/
def all : List Kind :=
  [property, operator, reduce, groupBy, parameter, clause .all, clause .any]

/-- The kind of a tag. -/
def ofTag? (s : String) : Option Kind := all.find? (·.tag = s)

@[simp] theorem ofTag?_tag (k : Kind) : ofTag? k.tag = some k := by
  cases k with
  | clause c => cases c <;> decide
  | _ => decide

/-- The kind that a stored tag names. Within another node, its place among all kinds names it
too. -/
def ofJson? (nested : Bool) : Json → Option Kind
  | .str s => ofTag? s
  | .num (.integer n _) => if nested ∧ 0 ≤ n then all[n.toNat]? else none
  | _ => none

/-- The fields of a node, in the order in which a list gives them. -/
def fieldNames : Kind → List String
  | property => ["property"]
  | operator => ["property", "operator"]
  | reduce => ["property", "reduce", "parameters"]
  | groupBy => ["property", "interval"]
  | parameter => ["name", "value", "fieldType"]
  | clause _ => ["expressions"]

end Kind

/-- Why a stored value is no node of the kind wanted. -/
inductive Fault where
  /-- The value has not the shape of a node. -/
  | malformed
  /-- It is a node of another kind. -/
  | unexpected (expected found : Kind)
  deriving DecidableEq

/-- The message of a fault; a malformed value has none of its own. -/
def Fault.message : Fault → String
  | malformed => ""
  | unexpected expected found => "expected " ++ expected.tag ++ " expression, found " ++ found.tag

/-- A reading that says nothing about its failure. -/
def orMalformed {α : Type} : Option α → Except Fault α
  | some v => .ok v
  | none => .error .malformed

/-- The fault of a reading. -/
def fault? {α : Type} : Except Fault α → Option Fault
  | .ok _ => none
  | .error f => some f

/-- The first member, in document order, whose value is faulty decides. -/
def firstFault (ms : Members) (faults : List (String × Option Fault)) : Except Fault Unit :=
  match ms.findSome? fun m => (faults.lookup m.1).join with
  | some f => .error f
  | none => .ok ()

/-- A field, absent if it is not in the object. -/
def readField {α : Type} (ms : Members) (key : String) (read : Json → Except Fault α) :
    Option (Except Fault α) :=
  (ms.lookup key).map read

/-- A field that must be present. -/
def need {α : Type} : Option (Except Fault α) → Except Fault α
  | some r => r
  | none => .error .malformed

/-- A field that may be missing. -/
def getOr {α : Type} (standard : α) : Option (Except Fault α) → Except Fault α
  | some r => r
  | none => .ok standard

/-- A value that may be null. -/
def orNull {α : Type} (read : Json → Except Fault α) : Json → Except Fault (Option α)
  | .null => .ok none
  | j => (read j).map some

/-- A list that was read as the fields `names`; more items than these are a fault, though only if
there is no other. -/
def closeList {α : Type} (names : List String) (items : List Json) (read : Except Fault α) :
    Except Fault α := do
  let v ← read
  if items.length ≤ names.length then return v else .error .malformed

/-- A record with the fields `names`, from its members. -/
def readRecord {α : Type} (names : List String) (read : Members → Except Fault α) :
    Json → Except Fault α
  | .obj ms => read ms
  | .arr xs => closeList names xs (read (names.zip xs))
  | _ => .error .malformed

def readProperty (j : Json) : Except Fault Property := orMalformed (Property.ofJson? j)

namespace Node

/-- The kind of a node. -/
def kind : Node → Kind
  | property _ => .property
  | operator _ _ => .operator
  | reduce _ _ _ => .reduce
  | groupBy _ _ => .groupBy
  | parameter _ => .parameter
  | clause c _ => .clause c

/-- The parameter in a node. -/
def toParameter : Node → Except Fault Parameter
  | parameter p => .ok p
  | n => .error (.unexpected .parameter n.kind)

/-- The kind that the tag of an object names. -/
def kindOf? (nested : Bool) (ms : Members) : Option Kind :=
  (ms.lookup "type").bind (Kind.ofJson? nested)

/-- A parameter, from the members of its node. -/
def readParameter (ms : Members) : Except Fault Parameter := orMalformed do
  return {
    name := ← ms.required "name" Json.text?
    value := ← ms.withDefault "value" (.text "") Scalar.ofJson?
    type := ← ms.withDefault "fieldType" .string ValueType.ofJson? }

/-- An aggregation, from the members of its node; the parameters have been read. -/
def readReduce (ms : Members) (parameters : Except Fault (List Parameter)) : Except Fault Node := do
  let property := readField ms "property" readProperty
  let function := readField ms "reduce" readProperty
  firstFault ms [("property", property.bind fault?), ("reduce", function.bind fault?),
    ("parameters", fault? parameters)]
  return .reduce (← need property) (← need function) (← parameters)

/-- A node of a kind, from its members; what is below it has been read. -/
def ofMembers (k : Kind) (ms : Members) (children : Except Fault (List Node))
    (parameters : Except Fault (List Parameter)) : Except Fault Node :=
  match k with
  | .property => do return property (← need (readField ms "property" readProperty))
  | .operator => do
    return operator (← need (readField ms "property" readProperty))
      (← need (readField ms "operator" fun j => orMalformed (Operator.ofJson? j)))
  | .reduce => readReduce ms parameters
  | .groupBy => do
    return groupBy (← need (readField ms "property" readProperty))
      (← getOr none (readField ms "interval" (orNull readProperty)))
  | .parameter => do return parameter (← readParameter ms)
  | .clause c => do return clause c (← children)

mutual

/-- A node with everything below it, which may be `nested` in another. -/
def read (nested : Bool) : Json → Except Fault Node
  | .obj ms =>
    match kindOf? nested ms with
    | none => .error .malformed
    | some k => ofMembers k ms (childrenOf ms) (parametersOf ms)
  | .arr (tag :: xs) =>
    match Kind.ofJson? nested tag with
    | none => .error .malformed
    | some k =>
      closeList k.fieldNames xs
        (ofMembers k (k.fieldNames.zip xs) (childrenAt xs) (parametersAt xs))
  | _ => .error .malformed
termination_by structural j => j

/-- The children of a clause, from its members. -/
def childrenOf : Members → Except Fault (List Node)
  | [] => .ok []
  | (k, v) :: ms => if k = "expressions" then nodesIn v else childrenOf ms
termination_by structural ms => ms

/-- The children of a clause, from its list. -/
def childrenAt : List Json → Except Fault (List Node)
  | v :: _ => nodesIn v
  | [] => .ok []
termination_by structural xs => xs

def nodesIn : Json → Except Fault (List Node)
  | .arr xs => nodes xs
  | _ => .error .malformed
termination_by structural j => j

def nodes : List Json → Except Fault (List Node)
  | [] => .ok []
  | x :: xs => do return (← read true x) :: (← nodes xs)
termination_by structural xs => xs

/-- The parameters of an aggregation, from its members. -/
def parametersOf : Members → Except Fault (List Parameter)
  | [] => .ok []
  | (k, v) :: ms => if k = "parameters" then parametersIn v else parametersOf ms
termination_by structural ms => ms

/-- The parameters of an aggregation, from its list. -/
def parametersAt : List Json → Except Fault (List Parameter)
  | _ :: _ :: v :: _ => parametersIn v
  | _ => .ok []
termination_by structural xs => xs

def parametersIn : Json → Except Fault (List Parameter)
  | .arr xs => parameters xs
  | _ => .error .malformed
termination_by structural j => j

def parameters : List Json → Except Fault (List Parameter)
  | [] => .ok []
  | x :: xs => do
    let n ← read true x
    let p ← n.toParameter
    return p :: (← parameters xs)
termination_by structural xs => xs

end

/-- A stored node that is part of no other. -/
def ofJson (j : Json) : Except Fault Node := read false j

/-- A parameter in the form of a node. -/
def parameterJson (p : Parameter) : Json :=
  .obj [("type", .str Kind.parameter.tag), ("name", .str p.name), ("value", p.value.toJson),
    ("fieldType", p.type.toJson)]

/-- The parameters of an aggregation; none are written as nothing. -/
def parameterMembers (ps : List Parameter) : Members :=
  if ps.isEmpty then [] else [("parameters", .arr (ps.map parameterJson))]

mutual

/-- The stored form of a node. The tag comes first. -/
def toJson : Node → Json
  | property p => .obj [("type", .str Kind.property.tag), ("property", p.toJson)]
  | operator p o =>
    .obj [("type", .str Kind.operator.tag), ("property", p.toJson), ("operator", o.toJson)]
  | reduce p f ps =>
    .obj ([("type", .str Kind.reduce.tag), ("property", p.toJson), ("reduce", f.toJson)] ++
      parameterMembers ps)
  | groupBy p interval =>
    .obj ([("type", .str Kind.groupBy.tag), ("property", p.toJson)] ++
      Json.present "interval" Property.toJson interval)
  | parameter p => parameterJson p
  | clause c children =>
    .obj [("type", .str (Kind.clause c).tag), ("expressions", .arr (toJsons children))]
termination_by structural n => n

def toJsons : List Node → List Json
  | [] => []
  | n :: ns => toJson n :: toJsons ns
termination_by structural ns => ns

end

@[simp] theorem toJsons_eq_map (ns : List Node) : toJsons ns = ns.map toJson := by
  induction ns with
  | nil => rfl
  | cons n ns ih => simp [toJsons, ih]

end Node

end Kusto.Draft
