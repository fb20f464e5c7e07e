import Kusto.Json.Lexeme
import Kusto.Toml.Moment

/-!
# Lexemes of TOML

A text is cut into lexemes by a machine that takes one character at a time. Blanks are a lexeme
of their own, since the double brackets of a header must not be parted.
-/

namespace Kusto.Toml

/-- A mark, a gap, a bare word or a quoted text. -/
inductive Lexeme where
  | newline
  | gap
  | equals
  | comma
  | openBracket
  | closeBracket
  | openBrace
  | closeBrace
  /-- Letters, digits and the marks that occur in numbers, times and dotted keys; a space stands
  only between a date and a digit. -/
  | bare (word : List Char)
  | text (value : String)
  /-- A text of many lines, which cannot be a key. -/
  | lines (value : String)
  deriving DecidableEq

/-- Where a text in quotes ends and what a backslash in it means. -/
structure Quoting where
  /-- The quote. -/
  mark : Char
  /-- The text stands in three quotes. -/
  long : Bool

/-- What has been read of the lexeme in hand; characters are newest first. -/
inductive Scan where
  | idle
  | bare (typed : List Char)
  /-- A date and a space. -/
  | dated (typed : List Char)
  | comment
  /-- The first quotes of a text. -/
  | opening (mark : Char) (count : Nat)
  /-- Three quotes have been read; a line that ends here does not count. -/
  | fresh (mark : Char)
  /-- A text in quotes, with the number of quotes just read. -/
  | text (q : Quoting) (typed : List Char) (quotes : Nat)
  /-- A backslash has been read. -/
  | escape (q : Quoting) (typed : List Char)
  /-- Hexadecimal digits of a character. -/
  | code (q : Quoting) (typed : List Char) (value : Nat) (left : Nat)
  /-- Blanks after a backslash, which must hold the end of a line. -/
  | skip (typed : List Char) (ended : Bool)

/-- A character of a bare word. -/
def isBareChar (c : Char) : Bool := c.isAlphanum || c ∈ ['_', '-', '+', '.', ':']

/-- A character that must not stand in a text or a comment. -/
def isControl (c : Char) : Bool := (c.toNat < 0x20 && c != '\t') || c.toNat = 0x7F

/-- A blank or a part of the end of a line. -/
def isLineBlank (c : Char) : Bool := c ∈ [' ', '\t', '\n', '\r']

/-- A character between lexemes, or the first of a lexeme. -/
def begin (c : Char) : Option (List Lexeme × Scan) :=
  if c = ' ' ∨ c = '\t' then some ([.gap], .idle)
  else if c = '\n' then some ([.newline], .idle)
  else if c = '\r' then some ([], .idle)
  else if c = '#' then some ([], .comment)
  else if c = '=' then some ([.equals], .idle)
  else if c = ',' then some ([.comma], .idle)
  else if c = '[' then some ([.openBracket], .idle)
  else if c = ']' then some ([.closeBracket], .idle)
  else if c = '\x7b' then some ([.openBrace], .idle)
  else if c = '\x7d' then some ([.closeBrace], .idle)
  else if c = '"' ∨ c = '\'' then some ([], .opening c 1)
  else if isBareChar c then some ([], .bare [c])
  else none

/-- The character after a backslash. -/
def escape? (c : Char) : Option Char :=
  if c = 'e' then some '\x1b' else if c = '/' then none else Json.escape? c

/-- The number of hexadecimal digits that make up a character after a backslash and `c`. -/
def codeLength? (c : Char) : Option Nat :=
  if c = 'x' then some 2 else if c = 'u' then some 4 else if c = 'U' then some 8 else none

/-- Quotes in front of the characters typed so far. -/
def addQuotes (mark : Char) (count : Nat) (typed : List Char) : List Char :=
  List.replicate count mark ++ typed

/-- A complete text. -/
def Quoting.lexeme (q : Quoting) (typed : List Char) : Lexeme :=
  let s := String.ofList typed.reverse
  if q.long then .lines s else .text s

/-- A character inside quotes. -/
def inText (q : Quoting) (typed : List Char) (c : Char) : Option (List Lexeme × Scan) :=
  if c = '\\' ∧ q.mark = '"' then some ([], .escape q typed)
  else if c = '\n' ∨ c = '\r' then if q.long then some ([], .text q (c :: typed) 0) else none
  else if isControl c then none
  else some ([], .text q (c :: typed) 0)

/-- A character of a text, after `quotes` quotes in a row. -/
def stepText (q : Quoting) (typed : List Char) (quotes : Nat) (c : Char) :
    Option (List Lexeme × Scan) :=
  if c = q.mark then
    if !q.long then some ([q.lexeme typed], .idle)
    else if quotes < 5 then some ([], .text q typed (quotes + 1))
    else none
  else if 3 ≤ quotes then do
    let (more, next) ← begin c
    return (q.lexeme (addQuotes q.mark (quotes - 3) typed) :: more, next)
  else inText q (addQuotes q.mark quotes typed) c

/-- One character: the lexemes that it ends, and the state after it. -/
def Scan.step (s : Scan) (c : Char) : Option (List Lexeme × Scan) :=
  match s with
  | idle => begin c
  | bare typed =>
    if isBareChar c then some ([], bare (c :: typed))
    else if c = ' ' ∧ isDate typed.reverse then some ([], dated typed)
    else do
      let (more, next) ← begin c
      return (.bare typed.reverse :: more, next)
  | dated typed =>
    if c.isDigit then some ([], bare (c :: ' ' :: typed))
    else do
      let (more, next) ← begin c
      return (.bare typed.reverse :: .gap :: more, next)
  | comment =>
    if c = '\n' ∨ c = '\r' then begin c else if isControl c then none else some ([], comment)
  | opening mark count =>
    if c = mark then
      if count = 1 then some ([], opening mark 2) else some ([], fresh mark)
    else if count = 1 then inText ⟨mark, false⟩ [] c
    else do
      let (more, next) ← begin c
      return (.text "" :: more, next)
  | fresh mark =>
    if c = '\r' then some ([], fresh mark)
    else if c = '\n' then some ([], text ⟨mark, true⟩ [] 0)
    else stepText ⟨mark, true⟩ [] 0 c
  | text q typed quotes => stepText q typed quotes c
  | escape q typed =>
    match codeLength? c with
    | some n => some ([], code q typed 0 n)
    | none =>
      if q.long ∧ isLineBlank c then some ([], skip typed (c = '\n'))
      else (escape? c).map fun d => ([], text q (d :: typed) 0)
  | code q typed value left => do
    let v := 16 * value + (← Json.hexValue? c)
    if 1 < left then return ([], code q typed v (left - 1))
    else if v.isValidChar then return ([], text q (Char.ofNat v :: typed) 0)
    else none
  | skip typed ended =>
    if isLineBlank c then some ([], skip typed (ended || c = '\n'))
    else if ended then stepText ⟨'"', true⟩ typed 0 c
    else none

/-- The text has ended. -/
def Scan.finish : Scan → Option (List Lexeme)
  | idle | comment => some []
  | bare typed | dated typed => some [.bare typed.reverse]
  | opening _ 2 => some [.text ""]
  | text q typed quotes =>
    if 3 ≤ quotes then some [q.lexeme (addQuotes q.mark (quotes - 3) typed)] else none
  | _ => none

/-- One character more; the lexemes so far are newest first. -/
def scanStep (r : List Lexeme × Scan) (c : Char) : Option (List Lexeme × Scan) := do
  let (ended, next) ← r.2.step c
  return (ended.reverse ++ r.1, next)

/-- A text without the byte order mark in front. -/
def withoutMark : List Char → List Char
  | '\ufeff' :: cs => cs
  | cs => cs

/-- Returns stand only in front of newlines. -/
def returnsEndLines : List Char → Bool
  | [] => true
  | '\r' :: cs => cs.head? = some '\n' && returnsEndLines cs
  | _ :: cs => returnsEndLines cs

/-- The lexemes of a text, which ends with its last line. The machine takes returns for blanks. -/
def lexemes? (cs : List Char) : Option (List Lexeme) := do
  guard (returnsEndLines cs)
  let (done, last) ← (withoutMark cs).foldlM scanStep ([], Scan.idle)
  return (done.reverse ++ (← last.finish) ++ [.newline])

end Kusto.Toml
