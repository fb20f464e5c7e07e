import Kusto.Text.Pieces
import Kusto.Toml.Lexeme
import Kusto.Toml.Section

/-!
# Reading TOML

Lexemes are put together by a machine that knows the table of the last header and the containers
that are open. Lines end a statement, but not an array or an inline table.
-/

namespace Kusto.Toml

/-! ## Keys -/

/-- A part of a dotted key. -/
inductive KeyPart where
  | name (value : String)
  | dot
  deriving DecidableEq

/-- The parts of a bare word in a key. -/
def bareParts (word : List Char) : List KeyPart :=
  let names := (Text.pieces '.' word).map fun p =>
    if p = [] then [] else [KeyPart.name (String.ofList p)]
  Text.joinWith [.dot] names

/-- A character of a bare name. -/
def isNameChar (c : Char) : Bool := c.isAlphanum || c == '_' || c == '-'

/-- The parts that a lexeme adds to a key. -/
def keyParts? : Lexeme → Option (List KeyPart)
  | .bare word => if word.all fun c => isNameChar c || c == '.' then some (bareParts word) else none
  | .text s => some [.name s]
  | .gap => some []
  | _ => none

/-- Names parted by dots. -/
def names? : List KeyPart → Option (List String)
  | [.name s] => some [s]
  | .name s :: .dot :: rest => (names? rest).map (s :: ·)
  | _ => none

/-- The largest number of names in a key, and of containers around each other. -/
def depthLimit : Nat := 80

/-- The names of a key. -/
def key? (parts : List KeyPart) : Option (List String) :=
  (names? parts).filter (·.length ≤ depthLimit)

/-! ## The machine -/

/-- A container that has not been closed; items are newest first. -/
inductive Open where
  | array (done : List Toml)
  | inline (done : Entries) (key : List String)

/-- What may come next in a line. -/
inductive Place where
  /-- A statement or a header. -/
  | start
  /-- A bracket has been read. -/
  | bracket
  | header (repeated : Bool) (parts : List KeyPart)
  /-- The second closing bracket of a repeated header. -/
  | close (path : List String)
  /-- The end of the line. -/
  | done
  | statement (parts : List KeyPart)
  /-- A value for a key; `outer` are the containers around it. -/
  | value (key : List String) (outer : List Open)
  /-- A value or the end of the array. -/
  | item (key : List String) (outer : List Open) (done : List Toml)
  /-- A key in an inline table, or the end of the table. -/
  | inlineKey (key : List String) (outer : List Open) (done : Entries) (parts : List KeyPart)
  /-- The equals sign after a key in an inline table. -/
  | inlineEquals (key : List String) (outer : List Open) (done : Entries) (inner : List String)
  /-- A comma or the end of the container around a value. -/
  | after (key : List String) (container : Open) (outer : List Open) (value : Toml)

/-- A document in the making. -/
structure Progress where
  root : Entries := []
  /-- The path of the last header. -/
  path : List String := []
  place : Place := .start

/-- A value is complete. -/
def Progress.complete (p : Progress) (key : List String) (outer : List Open) (v : Toml) :
    Option Progress :=
  match outer with
  | [] => do
    return { p with root := ← p.root.within (Entries.assign v key) p.path, place := .done }
  | container :: rest => some { p with place := .after key container rest v }

/-- The first lexeme of a value, in front of which an inline table may have new lines. -/
def Progress.beginValue (p : Progress) (key : List String) (outer : List Open) :
    Lexeme → Option Progress
  | .bare word => do p.complete key outer (← bare? word)
  | .text s | .lines s => p.complete key outer (.text s)
  | .openBracket =>
    if outer.length < depthLimit then some { p with place := .item key outer [] } else none
  | .openBrace =>
    if outer.length < depthLimit then some { p with place := .inlineKey key outer [] [] } else none
  | .gap => some { p with place := .value key outer }
  | .newline => if outer.isEmpty then none else some { p with place := .value key outer }
  | _ => none

/-- A header is complete. -/
def Progress.enter (p : Progress) (repeated : Bool) (path : List String) : Option Progress := do
  return { root := ← p.root.header repeated path, path, place := .done }

/-- A lexeme of a header. -/
def Progress.stepHeader (p : Progress) (repeated : Bool) (parts : List KeyPart) :
    Lexeme → Option Progress
  | .closeBracket => do
    let path ← key? parts
    if repeated then some { p with place := .close path } else p.enter false path
  | l => do return { p with place := .header repeated (parts ++ (← keyParts? l)) }

/-- A lexeme after a value in a container. -/
def Progress.stepAfter (p : Progress) (key : List String) (container : Open) (outer : List Open)
    (v : Toml) : Lexeme → Option Progress
  | .gap | .newline => some p
  | .comma =>
    match container with
    | .array done => some { p with place := .item key outer (v :: done) }
    | .inline done inner => do
      return { p with place := .inlineKey key outer (← done.assign v inner) [] }
  | .closeBracket =>
    match container with
    | .array done => p.complete key outer (.array (v :: done).reverse)
    | .inline _ _ => none
  | .closeBrace =>
    match container with
    | .array _ => none
    | .inline done inner => do
      p.complete key outer (.table (closeEntries (← done.assign v inner)))
  | _ => none

/-- One lexeme. -/
def Progress.step (p : Progress) (l : Lexeme) : Option Progress :=
  match p.place with
  | .start =>
    match l with
    | .newline | .gap => some p
    | .openBracket => some { p with place := .bracket }
    | l => do return { p with place := .statement (← keyParts? l) }
  | .bracket =>
    match l with
    | .openBracket => some { p with place := .header true [] }
    | l => p.stepHeader false [] l
  | .header repeated parts => p.stepHeader repeated parts l
  | .close path => if l = .closeBracket then p.enter true path else none
  | .done =>
    match l with
    | .newline => some { p with place := .start }
    | .gap => some p
    | _ => none
  | .statement parts =>
    match l with
    | .equals => do return { p with place := .value (← key? parts) [] }
    | l => do return { p with place := .statement (parts ++ (← keyParts? l)) }
  | .value key outer => p.beginValue key outer l
  | .item key outer done =>
    match l with
    | .newline | .gap => some p
    | .closeBracket => p.complete key outer (.array done.reverse)
    | l => p.beginValue key (.array done :: outer) l
  | .inlineKey key outer done parts =>
    match l with
    | .closeBrace =>
      if parts.isEmpty then p.complete key outer (.table (closeEntries done)) else none
    | .newline =>
      if parts.isEmpty then some p
      else do return { p with place := .inlineEquals key outer done (← key? parts) }
    | .equals => do return { p with place := .value key (.inline done (← key? parts) :: outer) }
    | l => do return { p with place := .inlineKey key outer done (parts ++ (← keyParts? l)) }
  | .inlineEquals key outer done inner =>
    match l with
    | .newline | .gap => some p
    | .equals => some { p with place := .value key (.inline done inner :: outer) }
    | _ => none
  | .after key container outer v => p.stepAfter key container outer v l

/-- The table of a complete document. -/
def Progress.result? (p : Progress) : Option (List (String × Toml)) :=
  match p.place with
  | .start => some (closeEntries p.root)
  | _ => none

/-- The entries of a document. -/
def read? (text : String) : Option (List (String × Toml)) := do
  let ls ← lexemes? text.toList
  (← ls.foldlM Progress.step {}).result?

end Kusto.Toml
