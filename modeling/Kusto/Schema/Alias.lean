import Kusto.Json.Fields
import Kusto.Schema.Cluster

/-!
# Aliases

Friendly names for tables, views and functions. Configured entries may be incomplete; an index
keeps the first complete entry of each alias.
-/

open Kusto.Text (trim)

namespace Kusto.Schema

/-- What an alias stands for. -/
inductive AliasKind where
  | table
  | view
  | function
  deriving DecidableEq

namespace AliasKind

/-- The kind of a configured name. -/
def ofName? (s : String) : Option AliasKind :=
  if s = "table" then some table
  else if s = "materializedView" ∨ s = "materialized_view" then some view
  else if s = "function" then some function
  else none

def name : AliasKind → String
  | table => "table"
  | view => "materializedView"
  | function => "function"

/-- The type of a source behind an alias. -/
def valueType : AliasKind → ValueType
  | function => .function
  | table | view => .string

/-- The database has an object of this kind and name. -/
def isIn (kind : AliasKind) (db : Database) (name : String) : Bool :=
  match kind with
  | table => (db.table? name).isSome
  | view => (db.view? name).isSome
  | function => (db.function? name).isSome

end AliasKind

/-- An alias as configured. -/
structure AliasEntry where
  database : Option String := none
  name : Option String := none
  label : Option String := none
  value : Option String := none
  kind : Option String := none
  deriving DecidableEq, Inhabited

/-- The fields of an alias in a document, in their order. -/
def AliasEntry.fieldNames : List String := ["database", "name", "displayName", "value", "type"]

/-- A complete alias: the object of a database, the label shown and the value stored for it. -/
structure Alias where
  database : String
  name : String
  label : String
  value : String
  kind : AliasKind
  deriving DecidableEq

/-- A text without the blanks around it, unless nothing is left. -/
def filled? (s : Option String) : Option String := do
  let t := trim (← s)
  if t = "" then none else some t

/-- The alias of an entry in which nothing is missing. -/
def AliasEntry.complete? (e : AliasEntry) : Option Alias := do
  return {
    database := ← filled? e.database
    name := ← filled? e.name
    label := ← filled? e.label
    value := ← filled? e.value
    kind := ← AliasKind.ofName? (trim (← e.kind)) }

/-- The alias as an option. -/
def Alias.choice (a : Alias) : Choice := ⟨a.label, a.value, a.kind.valueType⟩

/-- The aliases in use. -/
structure AliasIndex where
  enabled : Bool := false
  aliases : List Alias := []
  deriving DecidableEq, Inhabited

namespace AliasIndex

/-- Keep an alias, unless its value is taken. -/
def keep (kept : List Alias) (a : Alias) : List Alias :=
  if kept.any (·.value = a.value) then kept else kept ++ [a]

/-- The index of configured entries; incomplete ones are dropped. -/
def ofEntries (enabled : Bool) (entries : List AliasEntry) : AliasIndex :=
  ⟨enabled, (entries.filterMap AliasEntry.complete?).foldl keep []⟩

/-- The alias behind a source value; nothing if aliases are not in use. -/
def find? (x : AliasIndex) (value : String) : Option Alias :=
  if x.enabled then x.aliases.find? (·.value = value) else none

/-- The aliases of a database whose objects exist, as options. -/
def choicesIn (x : AliasIndex) (db : Database) (database : String) (wanted : Alias → Bool) :
    List Choice :=
  (x.aliases.filter fun a => a.database = database && wanted a && a.kind.isIn db a.name).map
    Alias.choice

/-- The sources of a database: its tables and views, or the aliases for its objects. -/
def tableChoices (x : AliasIndex) (c : Cluster) (database : String) : List Choice :=
  match c.database? database with
  | none => []
  | some db =>
    if x.enabled then x.choicesIn db database fun _ => true
    else (db.tables ++ db.views).map (Choice.plain ·.name .string)

/-- The functions of a database, or the aliases for them. -/
def functionChoices (x : AliasIndex) (c : Cluster) (database : String) : List Choice :=
  match c.database? database with
  | none => []
  | some db =>
    if x.enabled then x.choicesIn db database (·.kind = .function)
    else db.functions.map (Choice.plain ·.name .function)

end AliasIndex

/-! ## JSON form -/

def AliasEntry.toJson (e : AliasEntry) : Json :=
  .obj [("database", Json.orNull .str e.database), ("name", Json.orNull .str e.name),
    ("displayName", Json.orNull .str e.label), ("value", Json.orNull .str e.value),
    ("type", Json.orNull .str e.kind)]

/-- The label goes by two names, of which only one may be used; a list must give all fields. -/
def AliasEntry.ofJson? (j : Json) : Option AliasEntry := do
  let ms ← j.record? fieldNames
  let label ← ms.nullable "displayName" Json.text?
  let other ← ms.nullable "display_name" Json.text?
  if ((ms.lookup "displayName").isSome ∧ (ms.lookup "display_name").isSome) ∨ isShort j then none
  else
    return {
      database := ← ms.nullable "database" Json.text?
      name := ← ms.nullable "name" Json.text?
      label := label.or other
      value := ← ms.nullable "value" Json.text?
      kind := ← ms.nullable "type" Json.text? }
where
  /-- A list with too few items. -/
  isShort : Json → Bool
    | .arr xs => xs.length < fieldNames.length
    | _ => false

def Alias.toJson (a : Alias) : Json :=
  .obj [("database", .str a.database), ("name", .str a.name), ("displayName", .str a.label),
    ("value", .str a.value), ("type", .str a.kind.name)]

end Kusto.Schema
