import Kusto.Draft.Basic
import Kusto.Vocabulary.ResultFormat

/-!
# Stored queries

The form in which a query is kept: the text of the user, the draft of the editor, and which of
the two counts.
-/

open Kusto.Json (Members)

namespace Kusto.Stored

open Draft (Fault orMalformed firstFault fault? readField getOr readRecord)

/-- The version stamped on current queries. -/
def version : String := "0.1.0"

/-- Where the text of a query comes from. -/
inductive Origin where
  | raw
  | builder
  deriving DecidableEq

namespace Origin

def name : Origin → String
  | raw => "raw"
  | builder => "builder"

def ofName? (s : String) : Option Origin :=
  if s = "raw" then some raw else if s = "builder" then some builder else none

@[simp] theorem ofName?_name (o : Origin) : ofName? o.name = some o := by
  cases o <;> decide

theorem name_of_ofName? {s : String} {o : Origin} (h : ofName? s = some o) : o.name = s := by
  unfold ofName? at h
  split at h
  · rename_i hs
    rw [← Option.some.inj h, hs]
    rfl
  · split at h
    · rename_i hs
      rw [← Option.some.inj h, hs]
      rfl
    · exact absurd h (by simp)

def ofRawMode (raw : Bool) : Origin := if raw then .raw else .builder

end Origin

/-- A query as it is kept. -/
structure Query where
  refId : String := ""
  database : String := ""
  clusterUri : String := ""
  /-- The query written by hand. -/
  text : String := ""
  draft : Draft := {}
  format : ResultFormat := .table
  rawMode : Bool := false
  origin : Option Origin := none
  version : String := ""
  deriving DecidableEq, Inhabited

/-- What takes the place of missing fields. -/
structure Defaults where
  database : String := ""
  clusterUri : String := ""
  format : ResultFormat := .table
  text : String := ""
  deriving DecidableEq, Inhabited

namespace Query

/-- The text counts, not the draft. -/
def isRaw (q : Query) : Bool :=
  match q.origin with
  | some o => o = .raw
  | none => q.rawMode

def toJson (q : Query) : Json :=
  .obj ([("refId", .str q.refId), ("database", .str q.database), ("clusterUri", .str q.clusterUri),
    ("query", .str q.text), ("expression", q.draft.toJson),
    ("resultFormat", .str q.format.name), ("rawMode", .bool q.rawMode)] ++
    Json.present "querySource" (fun o => .str (Origin.name o)) q.origin ++
    [("pluginVersion", .str q.version)])

/-- A text, which may be missing. -/
def textField (ms : Members) (key : String) : Except Fault String :=
  getOr "" (readField ms key fun j => orMalformed j.text?)

def readFormat (j : Json) : Except Fault ResultFormat :=
  orMalformed (j.caseName?.bind ResultFormat.ofName?)

def readOrigin (j : Json) : Except Fault Origin := orMalformed (j.caseName?.bind Origin.ofName?)

/-- A query from its members; the first faulty field decides the error. -/
def ofMembers (ms : Members) : Except Fault Query := do
  let refId := textField ms "refId"
  let database := textField ms "database"
  let clusterUri := textField ms "clusterUri"
  let text := textField ms "query"
  let draft := getOr {} (readField ms "expression" Draft.ofJson)
  let format := getOr .table (readField ms "resultFormat" readFormat)
  let rawMode := getOr false (readField ms "rawMode" fun j => orMalformed j.bool?)
  let origin := getOr none (readField ms "querySource" (Draft.orNull readOrigin))
  let version := textField ms "pluginVersion"
  firstFault ms [("refId", fault? refId), ("database", fault? database),
    ("clusterUri", fault? clusterUri), ("query", fault? text), ("expression", fault? draft),
    ("resultFormat", fault? format), ("rawMode", fault? rawMode),
    ("querySource", fault? origin), ("pluginVersion", fault? version)]
  return {
    refId := ← refId
    database := ← database
    clusterUri := ← clusterUri
    text := ← text
    draft := ← draft
    format := ← format
    rawMode := ← rawMode
    origin := ← origin
    version := ← version }

/-- The fields of a stored query, in their order. -/
def fieldNames : List String :=
  ["refId", "database", "clusterUri", "query", "expression", "resultFormat", "rawMode",
    "querySource", "pluginVersion"]

/-- A stored query of the current form. -/
def ofJson (j : Json) : Except Fault Query := readRecord fieldNames ofMembers j

end Query

end Kusto.Stored
