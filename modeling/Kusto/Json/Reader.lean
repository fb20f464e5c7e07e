import Kusto.Json.Lexeme

/-!
# Reading JSON

Lexemes are put together by a machine with a stack of open containers. `document?` keeps repeated
keys as they stand; `read?` settles them.
-/

namespace Kusto.Json

/-- A container that has not been closed; its entries are newest first. -/
inductive Open where
  | array (done : List Json)
  | object (done : List (String × Json)) (key : String)

/-- What may come next. -/
inductive Progress where
  /-- A value. -/
  | value (outer : List Open)
  /-- A value, or the end of the array just opened. -/
  | firstItem (outer : List Open)
  /-- A key, or the end of the object just opened. -/
  | firstKey (outer : List Open)
  /-- A key. -/
  | key (outer : List Open) (done : List (String × Json))
  /-- A colon. -/
  | colon (outer : List Open) (done : List (String × Json)) (key : String)
  /-- A comma, the end of the container around the value just read, or the end of the text. -/
  | after (outer : List Open) (value : Json)

/-- Containers may be nested this deep. -/
def depthLimit : Nat := 127

/-- The first lexeme of a value. -/
def beginValue (outer : List Open) : Lexeme → Option Progress
  | .null => some (.after outer null)
  | .bool b => some (.after outer (bool b))
  | .number n => some (.after outer (num n))
  | .text s => some (.after outer (str s))
  | .openArray => if outer.length < depthLimit then some (.firstItem outer) else none
  | .openObject => if outer.length < depthLimit then some (.firstKey outer) else none
  | _ => none

/-- A value has been read inside a container. -/
def continueWith (container : Open) (outer : List Open) (v : Json) : Lexeme → Option Progress
  | .comma =>
    match container with
    | .array done => some (.value (.array (v :: done) :: outer))
    | .object done k => some (.key outer ((k, v) :: done))
  | .closeArray =>
    match container with
    | .array done => some (.after outer (arr (v :: done).reverse))
    | .object _ _ => none
  | .closeObject =>
    match container with
    | .array _ => none
    | .object done k => some (.after outer (obj ((k, v) :: done).reverse))
  | _ => none

/-- One lexeme. -/
def Progress.step : Progress → Lexeme → Option Progress
  | value outer, l => beginValue outer l
  | firstItem outer, .closeArray => some (after outer (arr []))
  | firstItem outer, l => beginValue (.array [] :: outer) l
  | firstKey outer, .closeObject => some (after outer (obj []))
  | firstKey outer, .text k => some (colon outer [] k)
  | key outer done, .text k => some (colon outer done k)
  | colon outer done k, .colon => some (value (.object done k :: outer))
  | after (container :: outer) v, l => continueWith container outer v l
  | _, _ => none

/-- The value of a complete text. -/
def Progress.result? : Progress → Option Json
  | after [] v => some v
  | _ => none

/-- The value that a text denotes, repeated keys kept. -/
def document? (text : String) : Option Json := do
  let ls ← lexemes? text.toList
  let p ← ls.foldlM Progress.step (Progress.value [])
  p.result?

/-- The value that a text denotes; a repeated key has its first place and its last value. -/
def read? (text : String) : Option Json := (document? text).map settled

end Kusto.Json
