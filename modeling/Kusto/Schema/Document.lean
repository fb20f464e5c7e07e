import Kusto.Json.Fields
import Kusto.Schema.Cluster

/-!
# Schema documents

The JSON form of a cluster. Collections are objects keyed by name; a key that is repeated makes
two entries, and an object without a name takes its key. A known field must not be repeated. In
place of an object its fields may stand as a list.
-/

open Kusto.Json (Members list?)

namespace Kusto.Schema

/-- No key of `known` occurs twice. -/
def isUnrepeated (known : List String) (ms : Members) : Bool :=
  known.all fun k => (ms.filter (·.1 = k)).length ≤ 1

/-- The members of a record with the fields `known`, none of them twice. -/
def recordOf (known : List String) (j : Json) : Option Members :=
  (j.record? known).filter (isUnrepeated known)

/-- The entries of a collection, read one by one; `null` is an empty collection. -/
def collection? {α : Type} (read : String → Json → Option α) : Json → Option (List α)
  | .null => some []
  | .obj ms => ms.mapM fun (k, v) => read k v
  | _ => none

/-- The name of an object, or its key if it has none. -/
def named (key name : String) : String := if name = "" then key else name

/-! ## Reading -/

def columnOfJson? (j : Json) : Option Column := do
  let ms ← recordOf ["Name", "CslType"] j
  return { name := ← ms.required "Name" Json.text?, type := ← ms.text "CslType" }

def columnsOfJson? (j : Json) : Option Columns := list? columnOfJson? j

namespace Table

def ofJson? (j : Json) : Option Table := do
  let ms ← recordOf ["Name", "OrderedColumns"] j
  return {
    name := ← ms.text "Name"
    columns := ← ms.withDefault "OrderedColumns" [] columnsOfJson? }

def ofEntry? (key : String) (j : Json) : Option Table :=
  (ofJson? j).map fun t => { t with name := named key t.name }

end Table

namespace Function

def ofJson? (j : Json) : Option Function := do
  let ms ← recordOf ["Name", "Body", "InputParameters", "OutputColumns"] j
  return {
    name := ← ms.text "Name"
    body := ← ms.text "Body"
    inputs := ← ms.withDefault "InputParameters" [] columnsOfJson?
    outputs := ← ms.withDefault "OutputColumns" [] columnsOfJson? }

def ofEntry? (key : String) (j : Json) : Option Function :=
  (ofJson? j).map fun f => { f with name := named key f.name }

end Function

namespace Database

def fieldNames : List String :=
  ["Name", "Tables", "MaterializedViews", "Functions", "ExternalTables"]

def ofJson? (j : Json) : Option Database := do
  let ms ← recordOf fieldNames j
  return {
    name := ← ms.text "Name"
    tables := ← ms.withDefault "Tables" [] (collection? Table.ofEntry?)
    views := ← ms.withDefault "MaterializedViews" [] (collection? Table.ofEntry?)
    functions := ← ms.withDefault "Functions" [] (collection? Function.ofEntry?)
    externals := ← ms.withDefault "ExternalTables" [] (collection? Table.ofEntry?) }

def ofEntry? (key : String) (j : Json) : Option Database :=
  (ofJson? j).map fun db => { db with name := named key db.name }

end Database

def Cluster.ofJson? (j : Json) : Option Cluster := do
  let ms ← recordOf ["Databases"] j
  return { databases := ← ms.withDefault "Databases" [] (collection? Database.ofEntry?) }

/-! ## Writing -/

def columnJson (c : Column) : Json := .obj [("Name", .str c.name), ("CslType", .str c.type)]

def columnsJson (cs : Columns) : Json := .arr (cs.map columnJson)

def Table.toJson (t : Table) : Json :=
  .obj [("Name", .str t.name), ("OrderedColumns", columnsJson t.columns)]

def Function.toJson (f : Function) : Json :=
  .obj [("Name", .str f.name), ("Body", .str f.body), ("InputParameters", columnsJson f.inputs),
    ("OutputColumns", columnsJson f.outputs)]

/-- Objects keyed by their names. -/
def keyed {α : Type} (name : α → String) (write : α → Json) (items : List α) : Json :=
  .obj (items.map fun x => (name x, write x))

def Database.toJson (db : Database) : Json :=
  .obj [("Name", .str db.name), ("Tables", keyed Table.name Table.toJson db.tables),
    ("MaterializedViews", keyed Table.name Table.toJson db.views),
    ("Functions", keyed Function.name Function.toJson db.functions),
    ("ExternalTables", keyed Table.name Table.toJson db.externals)]

def Cluster.toJson (c : Cluster) : Json :=
  .obj [("Databases", keyed Database.name Database.toJson c.databases)]

end Kusto.Schema
