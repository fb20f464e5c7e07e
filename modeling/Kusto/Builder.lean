import Kusto.Compile.Query
import Kusto.Json.Reader
import Kusto.Settings.Basic
import Kusto.Schema.Document
import Kusto.Stored.Upgrade

/-!
# The query builder

All that is needed to turn stored queries into the text of a query: the schema of a cluster, the
aliases, the options and the defaults.
-/

namespace Kusto

open Schema (Alias AliasIndex Cluster)

/-- The setting in which stored queries are compiled. -/
structure Builder where
  schema : Cluster := {}
  aliases : AliasIndex := {}
  options : Compile.Options := {}
  defaults : Stored.Defaults := {}
  deriving Inhabited

namespace Builder

/-- Why a stored query cannot be compiled at all. -/
inductive Fault where
  | notJson
  | notAnObject (kind : String)
  deriving DecidableEq

/-- What a value is. -/
def kindOf : Json → String
  | .null => "null"
  | .bool _ => "a boolean"
  | .num _ => "a number"
  | .str _ => "a string"
  | .arr _ => "an array"
  | .obj _ => "an object"

/-- The message of a fault. What is wrong with a text that is no JSON is not said. -/
def Fault.message : Fault → String
  | notJson => "Invalid query JSON: "
  | notAnObject kind => "Stored query must be a JSON object, got " ++ kind

/-- A compiled query: the query that was stored, the text to run, and how it came about. -/
structure Output where
  query : Stored.Query
  text : String
  /-- Nothing for a query written by hand. -/
  pipeline : Option Kql.Pipeline
  warnings : List Compile.Warning

/-- A builder with the settings of the user. -/
def ofSettings (env : Settings.Environment) (s : Settings) (schema : Cluster) :
    Except Settings.Fault Builder := do
  return { schema, aliases := s.aliasIndex, options := s.options, defaults := ← s.defaults env }

variable (b : Builder)

/-- The database of a query, or the default one. -/
def databaseOf (q : Stored.Query) : String :=
  if q.database = "" then b.defaults.database else q.database

/-- The columns of a source. -/
def sourceColumns (database : String) (source : Option String) (a : Option Alias) : Columns :=
  match a, source with
  | some a, _ => b.schema.columnsOf a.database a.name
  | none, some name => b.schema.columnsOf database name
  | none, none => []

/-- What a stored query is compiled against. -/
def contextOf (q : Stored.Query) : Compile.Context :=
  let database := b.databaseOf q
  let source := q.draft.sourceName?
  let a := source.bind b.aliases.find?
  { columns := b.sourceColumns database source a, database, alias? := a, options := b.options }

/-- Compile a query of the current form. -/
def compileStored (q : Stored.Query) : Output :=
  if q.isRaw then ⟨q, q.text, none, []⟩
  else
    let out := Compile.compile (b.contextOf q) q.draft
    ⟨q, out.query, some out.pipeline, out.warnings⟩

/-- Upgrade and compile a stored query of any form. -/
def compileJson (j : Json) : Except Fault Output :=
  match j with
  | .obj _ => .ok (b.compileStored (Stored.load b.defaults j))
  | _ => .error (.notAnObject (kindOf j))

/-- Read, upgrade and compile a stored query. -/
def compileText (text : String) : Except Fault Output :=
  match Json.read? text with
  | some j => b.compileJson j
  | none => .error .notJson

/-- The sources of a database. -/
def tableChoices (database : String) : List Choice := b.aliases.tableChoices b.schema database

/-- The functions of a database. -/
def functionChoices (database : String) : List Choice :=
  b.aliases.functionChoices b.schema database

/-- The columns of a source that has been chosen. -/
def columnChoices (database source : String) : List Choice :=
  (b.sourceColumns database (some source) (b.aliases.find? source)).choices

end Builder

end Kusto
