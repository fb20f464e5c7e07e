import Kusto.Builder
import Kusto.CommandLine.Arguments
import Kusto.Result.Shape

/-!
# Running a request

Every command reads files, computes, and answers with an exit code and two texts. Files and
environment are those of a `Host`.
-/

namespace Kusto.CommandLine

/-! ## The host -/

/-- Why a file cannot be read. -/
inductive ReadFault where
  /-- There is nothing at the path. -/
  | absent (reason : String)
  /-- There is something at the path. -/
  | unreadable (reason : String)
  deriving DecidableEq

def ReadFault.reason : ReadFault → String
  | absent r => r
  | unreadable r => r

/-- Where a request runs. -/
structure Host (m : Type → Type) where
  /-- The text of a file. -/
  read : String → m (Except ReadFault String)
  /-- The value of a variable of the environment. -/
  environment : String → m (Option String)
  /-- The directory of the user's settings. -/
  settingsHome : m (Option String)

/-! ## Answers -/

/-- What a run leaves. -/
structure Outcome where
  exitCode : Nat := 0
  output : String := ""
  errors : String := ""
  deriving DecidableEq

/-- Why a command fails. -/
inductive Failure where
  | settings (fault : Settings.Fault)
  | schemaUnreadable (path reason : String)
  | schemaMalformed
  | unreadable (path reason : String)
  | malformed
  | builder (fault : Builder.Fault)
  | result (fault : Result.Fault)
  deriving DecidableEq

namespace Failure

def message : Failure → String
  | settings f => f.message
  | schemaUnreadable path reason => "failed to read schema from " ++ path ++ ": " ++ reason
  | schemaMalformed => "invalid schema JSON: "
  | unreadable path reason => "Failed to read " ++ path ++ ": " ++ reason
  | malformed => "Invalid JSON: "
  | builder f => f.message
  | result f => f.message

/-- What is wrong with a malformed text is not said: the message is open. -/
def isOpen : Failure → Bool
  | settings f => f = .malformed
  | schemaMalformed | malformed => true
  | builder f => f = .notJson
  | schemaUnreadable _ _ | unreadable _ _ | result _ => false

/-- The message on a line of its own, which an open message does not end. -/
def line (f : Failure) : String := "Error: " ++ f.message ++ if f.isOpen then "" else "\n"

def outcome (f : Failure) : Outcome := { exitCode := 1, errors := f.line }

end Failure

/-- The name and the version of the program. -/
def versionLine : String := "kql-builder 0.1.0\n"

/-- The answer to arguments without a request. -/
def Stop.outcome : Stop → Outcome
  | usage => { exitCode := 2, errors := "usage\n" }
  | version => { output := versionLine }

/-! ## Input -/

section

variable {m : Type → Type} [Monad m] (host : Host m)

/-- A result as a failure of the command. -/
def orFail {ε α : Type} (failure : ε → Failure) : Except ε α → ExceptT Failure m α
  | .ok v => pure v
  | .error e => throw (failure e)

/-- The settings in a file, if there is one. -/
def settingsAt? (path : String) : ExceptT Failure m (Option Settings) := do
  match ← host.read path with
  | .ok text => return some (← orFail .settings (Settings.parse text))
  | .error (.unreadable reason) => throw (.settings (.unreadable reason))
  | .error (.absent _) => return none

/-- The settings in a file that was asked for. -/
def settingsAt (path : String) : ExceptT Failure m Settings := do
  match ← settingsAt? host path with
  | some s => return s
  | none => throw (.settings (.notFound path))

/-- The variable that names the settings file. -/
def configVariable : String := "KQL_BUILDER_CONFIG"

/-- The settings files that are looked for if none is named, the first to be used first. -/
def standardPaths (home : Option String) : List String :=
  "kql-builder.toml" :: (home.map (· ++ "/kql-builder/config.toml")).toList

/-- The settings in the first file that there is; without one, those in force by default. -/
def firstSettings : List String → ExceptT Failure m Settings
  | [] => return {}
  | path :: paths => do
    match ← settingsAt? host path with
    | some s => return s
    | none => firstSettings paths

/-- The settings of a request: a named file, else the standard ones. -/
def loadSettings (config : Option String) : ExceptT Failure m Settings := do
  match config.or (← host.environment configVariable) with
  | some path => settingsAt host path
  | none => firstSettings host (standardPaths (← host.settingsHome))

/-- The variables that the settings refer to. -/
def variablesOf (s : Settings) : List String :=
  (Settings.segments (s.clusterUri.getD "").toList).filterMap fun
    | .reference name => some (String.ofList name)
    | .char _ => none

/-- The values of some variables. -/
def environmentOf (names : List String) : ExceptT Failure m Settings.Environment := do
  let values ← names.mapM fun n => return (n, ← host.environment n)
  return fun n => (values.lookup n).join

/-- The builder of the settings for a cluster. -/
def builderOf (s : Settings) (schema : Schema.Cluster) : ExceptT Failure m Builder := do
  let env ← environmentOf host (variablesOf s)
  orFail .settings (Builder.ofSettings env s schema)

/-- The value in a file. -/
def readJson (path : String) : ExceptT Failure m Json := do
  let text ← orFail (fun f => .unreadable path (ReadFault.reason f)) (← host.read path)
  match Json.read? text with
  | some j => return j
  | none => throw .malformed

/-- The schema in a file. -/
def readSchema (path : String) : ExceptT Failure m Schema.Cluster := do
  let text ← orFail (fun f => .schemaUnreadable path (ReadFault.reason f)) (← host.read path)
  match (Json.document? text).bind Schema.Cluster.ofJson? with
  | some c => return c
  | none => throw .schemaMalformed

/-! ## Commands -/

/-- The warnings of a query, each on a line. -/
def warningLines (ws : List Compile.Warning) : String :=
  String.join (ws.map fun w => "warning: " ++ w.message ++ "\n")

/-- A database that is given takes the place of the default one. -/
def compile (config : Option String) (query : String) (schema database : Option String)
    (verbose : Bool) : ExceptT Failure m Outcome := do
  let settings ← loadSettings host config
  let cluster ←
    match schema with
    | some path => readSchema host path
    | none => pure {}
  let builder ← builderOf host settings cluster
  let defaults :=
    { builder.defaults with database := database.getD builder.defaults.database }
  let value ← readJson host query
  let out ← orFail .builder (Builder.compileJson { builder with defaults } value)
  return { output := out.text ++ "\n", errors := if verbose then warningLines out.warnings else "" }

def migrate (config : Option String) (query : String) : ExceptT Failure m Outcome := do
  let settings ← loadSettings host config
  let builder ← builderOf host settings {}
  let value ← readJson host query
  return { output := (Stored.upgrade builder.defaults value).pretty ++ "\n" }

/-- A source as an item of a list. -/
def choiceLine (c : Choice) : String :=
  if c.label = c.value then "  - " ++ c.value ++ "\n"
  else "  - " ++ c.label ++ " (" ++ c.value ++ ")\n"

def tables (config : Option String) (schema database : String) : ExceptT Failure m Outcome := do
  let settings ← loadSettings host config
  let cluster ← readSchema host schema
  let builder ← builderOf host settings cluster
  let choices := builder.tableChoices database
  return {
    output :=
      if choices.isEmpty then "No tables in " ++ database ++ ".\n"
      else String.join (choices.map choiceLine) }

def shape (result : String) (format : ResultFormat) : ExceptT Failure m Outcome := do
  let value ← readJson host result
  match Json.list? Result.DataTable.ofJson? value with
  | none => throw .malformed
  | some tables =>
    let shaped ← orFail .result (Result.shape format tables)
    return {
      output := shaped.toJson.pretty ++ "\n"
      errors := if shaped.timeNotAscending then "warning: time field is not ascending\n" else "" }

/-- The answer to a request, or why it fails. -/
def answer (r : Request) : ExceptT Failure m Outcome :=
  match r.command with
  | .compile query schema database verbose => compile host r.config query schema database verbose
  | .migrate query => migrate host r.config query
  | .tables schema database => tables host r.config schema database
  | .shape result format => shape host result format

/-- What the program does with its arguments. -/
def run (words : List String) : m Outcome := do
  match request words with
  | .error s => return s.outcome
  | .ok r =>
    match ← (answer host r).run with
    | .ok o => return o
    | .error f => return f.outcome

end

end Kusto.CommandLine
