import Kusto.Compile.Parts
import Kusto.Kql.Recognizer
import Kusto.Settings.Environment
import Kusto.Stored.Query
import Kusto.Toml.Reader

/-!
# Settings

The settings of the user, read from TOML. Tables and entries that are not known are ignored; an
entry of the wrong type makes the settings unreadable.
-/

namespace Kusto

open Schema (AliasEntry AliasIndex)

/-- The settings of the user. -/
structure Settings where
  /-- The cluster, with references to the environment. -/
  clusterUri : Option String := none
  defaultDatabase : Option String := none
  options : Compile.Options := {}
  aliasesEnabled : Bool := false
  aliases : List AliasEntry := []
  deriving DecidableEq, Inhabited

namespace Settings

/-- Why there are no settings. -/
inductive Fault where
  | notFound (path : String)
  | unreadable (reason : String)
  | malformed
  | unsetVariable (name : String)
  | intervalNotTimespan (interval : String)
  | limitNotPositive
  deriving DecidableEq

/-- The message of a fault. What is wrong with a malformed text is not said. -/
def Fault.message : Fault → String
  | notFound path => "Config file not found: " ++ path
  | unreadable reason => "Failed to read config file: " ++ reason
  | malformed => "Failed to parse config file: "
  | unsetVariable name => "Missing environment variable: " ++ name
  | intervalNotTimespan interval =>
    "Invalid configuration: compiler.default_interval is not a timespan: " ++ interval
  | limitNotPositive => "Invalid configuration: compiler.limit must be positive"

/-! ## Reading -/

/-- The entries of a table. -/
abbrev Entries := List (String × Toml)

def text? : Toml → Option String
  | .text s => some s
  | _ => none

def flag? : Toml → Option Bool
  | .bool b => some b
  | _ => none

/-- A number of rows of 64 bits. -/
def rows? : Toml → Option Nat
  | .integer n => if 0 ≤ n ∧ n < UInt64.size then some n.toNat else none
  | _ => none

/-- The entries of a section. A list gives them in the order of `names`, and a time stands for a
section without entries. -/
def section? (names : List String) : Toml → Option Entries
  | .table es => some es
  | .array xs => some (names.zip xs)
  | .time => some []
  | _ => none

/-- An entry that may be missing. -/
def Entries.optional {α : Type} (es : Entries) (key : String) (read : Toml → Option α) :
    Option (Option α) :=
  match es.lookup key with
  | none => some none
  | some v => (read v).map some

/-- A section; a missing one is empty. -/
def Entries.sub (es : Entries) (key : String) (names : List String) : Option Entries :=
  (es.optional key (section? names)).map (·.getD [])

/-- An alias. The label goes by two names, of which only one may be used; a list must give all
entries. -/
def alias? (v : Toml) : Option AliasEntry := do
  let es ← section? AliasEntry.fieldNames v
  let label ← es.optional "displayName" text?
  let other ← es.optional "display_name" text?
  if (label.isSome ∧ other.isSome) ∨ isShort v then none
  else
    return {
      database := ← es.optional "database" text?
      name := ← es.optional "name" text?
      label := label.or other
      value := ← es.optional "value" text?
      kind := ← es.optional "type" text? }
where
  /-- A list with too few items. -/
  isShort : Toml → Bool
    | .array xs => xs.length < AliasEntry.fieldNames.length
    | _ => false

/-- A list of aliases. -/
def aliases? : Toml → Option (List AliasEntry)
  | .array xs => xs.mapM alias?
  | _ => none

/-- The options of the compiler. -/
def options? (es : Entries) : Option Compile.Options := do
  return {
    timeFilter := (← es.optional "time_filter" flag?).getD false
    defaultInterval := ← es.optional "default_interval" text?
    limit := ← es.optional "limit" rows? }

/-- The settings in a document. -/
def ofEntries? (es : Entries) : Option Settings := do
  let cluster ← es.sub "cluster" ["uri", "default_database"]
  let mapping ← es.sub "schema_mapping" ["enabled", "mappings"]
  return {
    clusterUri := ← cluster.optional "uri" text?
    defaultDatabase := ← cluster.optional "default_database" text?
    options := ← options? (← es.sub "compiler" ["time_filter", "default_interval", "limit"])
    aliasesEnabled := (← mapping.optional "enabled" flag?).getD false
    aliases := (← mapping.optional "mappings" aliases?).getD [] }

/-- The default bin width is one that can be written. -/
def isWidth (s : String) : Bool := Kql.isTimespanLiteral s || Kql.isTemplateVariable s

/-- The settings make sense: the bin width first, then the limit. -/
def validate (s : Settings) : Except Fault Settings :=
  match s.options.defaultInterval.filter fun w => !isWidth w with
  | some w => .error (.intervalNotTimespan w)
  | none => if s.options.limit = some 0 then .error .limitNotPositive else .ok s

/-- The settings in a text. -/
def parse (text : String) : Except Fault Settings :=
  match (Toml.read? text).bind ofEntries? with
  | some s => validate s
  | none => .error .malformed

/-! ## Use -/

/-- The defaults for stored queries, the references in the cluster replaced. -/
def defaults (env : Environment) (s : Settings) : Except Fault Stored.Defaults :=
  match (s.clusterUri.mapM (expand env)) with
  | .ok uri => .ok { database := s.defaultDatabase.getD "", clusterUri := uri.getD "" }
  | .error name => .error (.unsetVariable name)

/-- The aliases in use. -/
def aliasIndex (s : Settings) : AliasIndex := .ofEntries s.aliasesEnabled s.aliases

/-- The settings as JSON, in the order of their sections. -/
def toJson (s : Settings) : Json :=
  .obj [
    ("cluster", .obj [("uri", Json.orNull .str s.clusterUri),
      ("default_database", Json.orNull .str s.defaultDatabase)]),
    ("compiler", .obj [("time_filter", .bool s.options.timeFilter),
      ("default_interval", Json.orNull .str s.options.defaultInterval),
      ("limit", Json.orNull (fun n => Json.ofInt n) s.options.limit)]),
    ("schema_mapping", .obj [("enabled", .bool s.aliasesEnabled),
      ("mappings", .arr (s.aliases.map AliasEntry.toJson))])]

end Settings

end Kusto
