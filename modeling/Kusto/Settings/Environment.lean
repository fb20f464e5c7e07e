import Kusto.Kql.Quoted

/-!
# References to the environment

A text may refer to variables as `${NAME}`. It is cut into characters and references from left to
right; the values of references are not looked into again.
-/

namespace Kusto.Settings

open Kql (isWordStart isWordChar)

/-- A character, or a reference to a variable. -/
inductive Segment where
  | char (c : Char)
  | reference (name : List Char)
  deriving DecidableEq

/-- The beginning of what may become a reference; the name is newest first. -/
inductive Pending where
  | none
  | dollar
  | brace (name : List Char)

namespace Pending

/-- The characters read so far. -/
def chars : Pending → List Char
  | none => []
  | dollar => ['$']
  | brace name => '$' :: '\x7b' :: name.reverse

/-- One character after no beginning. -/
def start (c : Char) : List Segment × Pending :=
  if c = '$' then ([], dollar) else ([.char c], none)

/-- One character: the segments that are complete, and the beginning that is left. -/
def step (p : Pending) (c : Char) : List Segment × Pending :=
  let plain := (p.chars.map Segment.char ++ (start c).1, (start c).2)
  match p with
  | none => start c
  | dollar => if c = '\x7b' then ([], brace []) else plain
  | brace [] => if isWordStart c then ([], brace [c]) else plain
  | brace name =>
    if c = '\x7d' then ([.reference name.reverse], none)
    else if isWordChar c then ([], brace (c :: name))
    else plain

end Pending

/-- The segments of a text after a beginning. -/
def segmentsFrom (p : Pending) : List Char → List Segment
  | [] => p.chars.map Segment.char
  | c :: cs => (p.step c).1 ++ segmentsFrom (p.step c).2 cs

/-- The segments of a text. -/
def segments (cs : List Char) : List Segment := segmentsFrom .none cs

/-- The characters that a segment stands for. -/
def Segment.chars : Segment → List Char
  | char c => [c]
  | reference name => '$' :: '\x7b' :: (name ++ ['\x7d'])

/-- The variables that are set. -/
abbrev Environment := String → Option String

/-- The segments with the values of their references, or the first that is not set. -/
def substitute (env : Environment) : List Segment → Except String (List Char)
  | [] => .ok []
  | .char c :: rest => do return c :: (← substitute env rest)
  | .reference name :: rest =>
    match env (String.ofList name) with
    | some v => do return v.toList ++ (← substitute env rest)
    | none => .error (String.ofList name)

/-- A text with all references replaced, or the first variable that is not set. -/
def expand (env : Environment) (s : String) : Except String String :=
  (substitute env (segments s.toList)).map String.ofList

end Kusto.Settings
