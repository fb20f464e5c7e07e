import Kusto.Vocabulary.ResultFormat

/-!
# Command line arguments

A request names a command; flags stand before and after the name. A flag is written in full or by
its letter, letters may share a dash, and no flag may be given twice in one place.
-/

namespace Kusto.CommandLine

/-! ## Flags -/

/-- The name of a format on the command line. -/
def formatName : ResultFormat → String
  | .table => "table"
  | .timeSeries => "time-series"
  | .arraySeries => "adx-time-series"

/-- The format of a name on the command line. -/
def format? (s : String) : Option ResultFormat := ResultFormat.all.find? (formatName · = s)

@[simp] theorem format?_formatName (f : ResultFormat) : format? (formatName f) = some f := by
  cases f <;> decide

/-- What a flag takes. -/
inductive Takes where
  | nothing
  | text
  /-- A text that is not empty. -/
  | path
  /-- The name of a format. -/
  | format
  /-- Nothing: all that follows is ignored, and the version is shown. -/
  | version
  deriving DecidableEq

/-- The text is one that a flag may take. -/
def Takes.accepts : Takes → String → Bool
  | path, s => s != ""
  | format, s => (format? s).isSome
  | _, _ => true

/-- A flag, its letter, and what it takes. -/
structure Flag where
  name : String
  letter : Char
  takes : Takes
  deriving DecidableEq

/-- The flags given, with their values. -/
abbrev Given := List (String × String)

/-- Why there is no request. -/
inductive Stop where
  /-- The arguments make no sense. -/
  | usage
  /-- The version is asked for. -/
  | version
  deriving DecidableEq

/-! ## Words -/

/-- An argument as it looks. -/
inductive Word where
  | plain (text : String)
  /-- Two dashes and a name, with the text after an equals sign. -/
  | long (name : String) (value : Option String)
  /-- A dash and letters. -/
  | letters (cs : List Char)

/-- A lone dash is a plain word. -/
def Word.ofText (s : String) : Word :=
  match s.toList with
  | '-' :: '-' :: cs =>
    let name := String.ofList (cs.takeWhile (· != '='))
    match cs.dropWhile (· != '=') with
    | _ :: value => .long name (some (String.ofList value))
    | [] => .long name none
  | '-' :: c :: cs => .letters (c :: cs)
  | _ => .plain s

/-! ## Reading -/

/-- Flags read so far, and the flag whose value is the next word. -/
structure Progress where
  given : Given := []
  pending : Option Flag := none

namespace Progress

/-- A flag with its value. -/
def give (p : Progress) (f : Flag) (value : String) : Except Stop Progress :=
  if (p.given.lookup f.name).isSome || !f.takes.accepts value then .error .usage
  else .ok { given := p.given ++ [(f.name, value)] }

/-- A flag without its value. -/
def begin (p : Progress) (f : Flag) : Except Stop Progress :=
  match f.takes with
  | .nothing => p.give f ""
  | .version => .error .version
  | .text | .path | .format => .ok { p with pending := some f }

/-- A flag in full. -/
def long (flags : List Flag) (p : Progress) (name : String) (value : Option String) :
    Except Stop Progress :=
  match flags.find? (·.name = name), value with
  | some f, none => p.begin f
  | some f, some v =>
    match f.takes with
    | .nothing | .version => .error .usage
    | .text | .path | .format => p.give f v
  | none, _ => .error .usage

/-- The text after the letter of a flag. An equals sign in front of it does not count. -/
def attached : List Char → String
  | '=' :: cs => String.ofList cs
  | cs => String.ofList cs

/-- Flags by their letters; one that takes a value takes the rest. -/
def letters (flags : List Flag) (p : Progress) : List Char → Except Stop Progress
  | [] => .ok p
  | c :: cs =>
    match flags.find? (·.letter = c) with
    | none => .error .usage
    | some f =>
      match f.takes, cs with
      | .nothing, cs => do letters flags (← p.begin f) cs
      | .version, _ => .error .version
      | .text, [] | .path, [] | .format, [] => p.begin f
      | .text, cs | .path, cs | .format, cs => p.give f (attached cs)

/-- One word. A value does not begin with a dash, unless it is a lone one. -/
def step (flags : List Flag) (p : Progress) (w : String) : Except Stop Progress :=
  match p.pending, Word.ofText w with
  | some f, .plain value => p.give f value
  | none, .long name value => p.long flags name value
  | none, .letters cs => p.letters flags cs
  | some _, _ | none, .plain _ => .error .usage

/-- The flags given, if none lacks its value. -/
def finish (p : Progress) : Except Stop Given :=
  if p.pending.isSome then .error .usage else .ok p.given

end Progress

/-- Two dashes at the end do not count. -/
def withoutSeparator (words : List String) : List String :=
  if words.getLast? = some "--" then words.dropLast else words

/-- The flags of a command. -/
def readFlags (flags : List Flag) (words : List String) : Except Stop Given := do
  let p ← (withoutSeparator words).foldlM (Progress.step flags) {}
  p.finish

/-! ## Commands -/

/-- What can be asked for. -/
inductive Command where
  /-- Print the text of a stored query, with `verbose` also the warnings. -/
  | compile (query : String) (schema database : Option String) (verbose : Bool)
  /-- Print a stored query in the current form. -/
  | migrate (query : String)
  /-- List the sources of a database. -/
  | tables (schema database : String)
  /-- Shape a result. -/
  | shape (result : String) (format : ResultFormat)
  deriving DecidableEq

/-- A command with its settings file. -/
structure Request where
  config : Option String
  command : Command
  deriving DecidableEq

/-- How a command is written. -/
structure Form where
  name : String
  flags : List Flag
  /-- The command, unless a flag is missing. -/
  command? : Given → Option Command

/-- The flag for the settings file. -/
def configFlag : Flag := ⟨"config", 'c', .path⟩

/-- The flags in front of the command. -/
def generalFlags : List Flag := [configFlag, ⟨"version", 'V', .version⟩]

def queryFlag : Flag := ⟨"query", 'q', .path⟩

def schemaFlag : Flag := ⟨"schema", 's', .path⟩

def databaseFlag : Flag := ⟨"database", 'd', .text⟩

/-- The format of a result; a table if none is given. -/
def formatOf (g : Given) : ResultFormat := ((g.lookup "format").bind format?).getD .table

/-- All commands. -/
def forms : List Form :=
  [⟨"compile", [queryFlag, schemaFlag, databaseFlag, ⟨"verbose", 'v', .nothing⟩], fun g => do
      return .compile (← g.lookup "query") (g.lookup "schema") (g.lookup "database")
        (g.lookup "verbose").isSome⟩,
    ⟨"migrate", [queryFlag], fun g => do return .migrate (← g.lookup "query")⟩,
    ⟨"tables", [schemaFlag, databaseFlag], fun g => do
      return .tables (← g.lookup "schema") (← g.lookup "database")⟩,
    ⟨"shape", [⟨"result", 'r', .path⟩, ⟨"format", 'f', .format⟩], fun g => do
      return .shape (← g.lookup "result") (formatOf g)⟩]

/-- A request, from the flags before the name of its command and the words after it. A settings
file named after it counts more. -/
def Form.read (form : Form) (before : Given) (words : List String) : Except Stop Request := do
  let given ← readFlags (configFlag :: form.flags) words
  match form.command? given with
  | some c => return ⟨(given.lookup "config").or (before.lookup "config"), c⟩
  | none => throw .usage

/-- A request, after the flags read so far. -/
def readFrom (p : Progress) : List String → Except Stop Request
  | [] => .error .usage
  | w :: ws =>
    match p.pending, Word.ofText w with
    | none, .plain name =>
      match forms.find? (·.name = name) with
      | some form => form.read p.given ws
      | none => .error .usage
    | _, _ => do readFrom (← p.step generalFlags w) ws

/-- The request in the arguments. -/
def request (words : List String) : Except Stop Request := readFrom {} words

end Kusto.CommandLine
