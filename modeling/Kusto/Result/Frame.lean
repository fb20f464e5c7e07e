import Kusto.Json.Fields
import Kusto.Number.Binary64
import Kusto.Time.Instant
import Kusto.Vocabulary.ResultFormat

/-!
# Frames

Typed fields of equal length, ready for display.
-/

open Kusto.Number (Binary64)
open Kusto.Time (Instant)

namespace Kusto.Result

/-- The values of a field. -/
inductive Values where
  | times (values : List (Option Instant))
  | numbers (values : List (Option Binary64))
  | booleans (values : List (Option Bool))
  | texts (values : List (Option String))
  deriving DecidableEq

namespace Values

def length : Values → Nat
  | times vs => vs.length
  | numbers vs => vs.length
  | booleans vs => vs.length
  | texts vs => vs.length

/-- The times, if the values are times. -/
def times? : Values → Option (List (Option Instant))
  | times vs => some vs
  | _ => none

end Values

/-- A tag of a series. -/
structure Label where
  name : String
  value : String
  deriving DecidableEq

/-- Named values, with the labels of the series. -/
structure Field where
  name : String
  labels : List Label := []
  values : Values
  deriving DecidableEq

/-- Something to be told about a frame whose data are good. -/
inductive Notice where
  /-- The times of a field go back. -/
  | timeNotAscending (field : String)
  deriving DecidableEq

/-- Fields of equal length. -/
structure Frame where
  name : String
  fields : List Field
  notices : List Notice := []
  deriving DecidableEq

/-- The first field of a name. -/
def Frame.field? (f : Frame) (name : String) : Option Field := f.fields.find? (·.name = name)

/-- The frames of a result. -/
structure Shaped where
  format : ResultFormat
  frames : List Frame
  deriving DecidableEq

/-- Some frame has times that go back. -/
def Shaped.timeNotAscending (s : Shaped) : Bool := s.frames.any fun f => !f.notices.isEmpty

/-! ## JSON form -/

/-- The type name and the written values. -/
def Values.written : Values → String × List Json
  | times vs => ("time", vs.map (Json.orNull fun t => .str t.text))
  | numbers vs => ("number", vs.map (Json.orNull Json.ofBinary64))
  | booleans vs => ("boolean", vs.map (Json.orNull .bool))
  | texts vs => ("string", vs.map (Json.orNull .str))

def Label.toJson (l : Label) : Json := .obj [("name", .str l.name), ("value", .str l.value)]

/-- A member that is written only if the list has items. -/
def nonEmpty (key : String) (items : List Json) : Json.Members :=
  if items.isEmpty then [] else [(key, .arr items)]

def Field.toJson (f : Field) : Json :=
  let (type, values) := f.values.written
  .obj (("name", .str f.name) :: (nonEmpty "labels" (f.labels.map Label.toJson) ++
    [("type", .str type), ("values", .arr values)]))

def Notice.toJson : Notice → Json
  | timeNotAscending field => .obj [("kind", .str "timeNotAsc"), ("field", .str field)]

def Frame.toJson (f : Frame) : Json :=
  .obj ([("name", .str f.name), ("fields", .arr (f.fields.map Field.toJson))] ++
    nonEmpty "notices" (f.notices.map Notice.toJson))

def Shaped.toJson (s : Shaped) : Json :=
  .obj [("format", .str s.format.name), ("frames", .arr (s.frames.map Frame.toJson))]

end Kusto.Result
