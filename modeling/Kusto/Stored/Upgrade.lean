import Kusto.Legacy.Upgrade
import Kusto.Stored.Query

/-!
# Upgrading stored queries

Missing fields are filled in, the expression is upgraded, and the version is stamped. A query that
is current stays as it is.
-/

open Kusto.Json (Members put)

namespace Kusto.Stored

/-- The fields that have defaults. -/
def defaultMembers (d : Defaults) : Members :=
  [("database", .str d.database), ("clusterUri", .str d.clusterUri), ("query", .str d.text),
    ("resultFormat", .str d.format.name)]

/-- A field is missing or null. -/
def isUnset (ms : Members) (key : String) : Bool :=
  match ms.lookup key with
  | none | some .null => true
  | some _ => false

/-- The defaults of the fields that are unset. -/
def missingMembers (ms : Members) (d : Defaults) : Members :=
  (defaultMembers d).filter fun m => isUnset ms m.1

/-- The raw mode that is stored. -/
def rawMode? (ms : Members) : Option Bool := (ms.lookup "rawMode").bind Json.bool?

/-- The origin that is stored. -/
def origin? (ms : Members) : Option Origin :=
  ((ms.lookup "querySource").bind Json.text?).bind Origin.ofName?

/-- The query carries the current version. -/
def hasVersion (ms : Members) : Bool :=
  (ms.lookup "pluginVersion").bind Json.text? = some version

/-- The expression is missing or of an older generation. -/
def hasOldExpression (ms : Members) : Bool :=
  match ms.lookup "expression" with
  | some e => Legacy.isLegacy e
  | none => true

/-- Something is missing or of an older form. -/
def isOld (ms : Members) (d : Defaults) : Bool :=
  !(missingMembers ms d).isEmpty || hasOldExpression ms || (rawMode? ms).isNone ||
    (origin? ms).isNone || !hasVersion ms

/-- The value is an object that has to be upgraded. -/
def needsUpgrade (d : Defaults) : Json → Bool
  | .obj ms => isOld ms d
  | _ => false

/-- The expression without clauses. -/
def emptyExpression : Json := Draft.toJson {}

/-- The expression in the current generation. -/
def expressionOf (ms : Members) : Json :=
  match ms.lookup "expression" with
  | some e => Legacy.upgrade e
  | none => emptyExpression

/-- The expression has a source. -/
def hasSource (expression : Json) : Bool :=
  match expression.member? "from" with
  | none | some .null => false
  | some _ => true

/-- The raw mode that is stored, else raw exactly without a source. -/
def rawModeOf (ms : Members) : Bool := (rawMode? ms).getD !hasSource (expressionOf ms)

/-- Set a member only if `missing`. -/
def putIf (missing : Bool) (key : String) (value : Json) (ms : Members) : Members :=
  if missing then put key value ms else ms

/-- The members of a query in the current form. -/
def upgradeMembers (ms : Members) (d : Defaults) : Members :=
  let filled := (missingMembers ms d).foldl (fun acc m => put m.1 m.2 acc) ms
  let raw := rawModeOf ms
  put "pluginVersion" (.str version)
    (putIf (origin? ms).isNone "querySource" (.str (Origin.ofRawMode raw).name)
      (putIf (rawMode? ms).isNone "rawMode" (.bool raw)
        (put "expression" (expressionOf ms) filled)))

/-- A stored query in the current form. -/
def upgrade (d : Defaults) (j : Json) : Json :=
  if needsUpgrade d j then .obj (upgradeMembers (j.members?.getD []) d) else j

/-- The query that stands for one whose fields cannot be read. -/
def standardQuery (d : Defaults) : Query :=
  { database := d.database, clusterUri := d.clusterUri, text := d.text, format := d.format,
    version := version }

/-- A stored query of any form. The expression is read on its own, so that a fault in it does not
cost the other fields; if one of those cannot be read, all take their defaults. -/
def load (d : Defaults) (j : Json) : Query :=
  let ms := ((upgrade d j).members?).getD []
  let head := ms.filter (·.1 ≠ "expression")
  let query :=
    match Query.ofMembers head with
    | .ok q => q
    | .error _ => standardQuery d
  { query with
    draft :=
      match ms.lookup "expression" with
      | some e => Legacy.loadDraft e
      | none => {} }

end Kusto.Stored
