import Kusto.Kql.Quoted
import Kusto.Number.Layout
import Kusto.Vocabulary.Connective

/-!
# Tokens

The smallest parts of a query. All quoting is done here, token by token; the text of a query is
the text of its tokens, one after the other.
-/

open Kusto.Number

namespace Kusto.Kql

/-- A word of the query language. -/
inductive Keyword where
  | filter
  | summarize
  | groupBy
  | take
  | connective (c : Connective)
  deriving DecidableEq

def Keyword.word : Keyword → String
  | filter => "where"
  | summarize => "summarize"
  | groupBy => "by"
  | take => "take"
  | connective c => c.word

/-- A punctuation mark. -/
inductive Mark where
  | range
  | pipe
  | comma
  | dot
  | openParen
  | closeParen
  | openBracket
  | closeBracket
  deriving DecidableEq

def Mark.chars : Mark → List Char
  | range => ['.', '.']
  | pipe => ['|']
  | comma => [',']
  | dot => ['.']
  | openParen => ['(']
  | closeParen => [')']
  | openBracket => ['[']
  | closeBracket => [']']

/-- A part of a query. -/
inductive Token where
  | keyword (word : Keyword)
  | mark (mark : Mark)
  | space
  /-- A filter operator, as it stands. -/
  | operator (name : String)
  /-- A name, quoted where necessary. -/
  | identifier (name : String)
  | int (value : Int)
  | real (value : Binary64)
  /-- A text, quoted. -/
  | text (value : String)
  | bool (value : Bool)
  | dateTime (value : String)
  | timeSpan (value : String)
  /-- The name of a function, as it stands. -/
  | function (name : String)
  /-- A template variable, as it stands. -/
  | template (name : String)
  /-- A comment in the place of something that cannot be written. -/
  | comment (message : String)
  /-- A text as it stands. -/
  | verbatim (text : String)
  deriving DecidableEq

/-- Reals are positional from `10 ^ (-5)` up to `10 ^ 16`; exponents show no plus sign. -/
def realLayout : Layout := ⟨-5, 16, false⟩

/-- A real literal. -/
def realChars : Binary64 → List Char
  | .finite x => realLayout.finite x
  | .infinite false => "real(+inf)".toList
  | .infinite true => "real(-inf)".toList
  | .nan => "real(nan)".toList

/-- A truth value as a word. -/
def boolChars (b : Bool) : List Char := if b then "true".toList else "false".toList

/-- The text of a token. -/
def Token.chars : Token → List Char
  | keyword k => k.word.toList
  | mark m => m.chars
  | space => [' ']
  | operator name => name.toList
  | identifier name => Kql.identifier name
  | int n => intText n
  | real x => realChars x
  | text s => quoted s
  | bool b => boolChars b
  | dateTime s => "datetime(".toList ++ s.toList ++ [')']
  | timeSpan s => s.toList
  | function name => name.toList
  | template name => name.toList
  | comment s => Kql.comment s
  | verbatim s => s.toList

namespace Token

@[simp] theorem chars_keyword (k : Keyword) : (keyword k).chars = k.word.toList := rfl

@[simp] theorem chars_mark (m : Mark) : (mark m).chars = m.chars := rfl

@[simp] theorem chars_space : space.chars = [' '] := rfl

@[simp] theorem chars_operator (name : String) : (operator name).chars = name.toList := rfl

@[simp] theorem chars_identifier (name : String) :
    (identifier name).chars = Kql.identifier name := rfl

@[simp] theorem chars_int (n : Int) : (int n).chars = intText n := rfl

@[simp] theorem chars_real (x : Binary64) : (real x).chars = realChars x := rfl

@[simp] theorem chars_text (s : String) : (text s).chars = quoted s := rfl

@[simp] theorem chars_bool (b : Bool) : (bool b).chars = boolChars b := rfl

@[simp] theorem chars_dateTime (s : String) :
    (dateTime s).chars = "datetime(".toList ++ s.toList ++ [')'] := rfl

@[simp] theorem chars_timeSpan (s : String) : (timeSpan s).chars = s.toList := rfl

@[simp] theorem chars_function (name : String) : (function name).chars = name.toList := rfl

@[simp] theorem chars_template (name : String) : (template name).chars = name.toList := rfl

@[simp] theorem chars_comment (s : String) : (comment s).chars = Kql.comment s := rfl

@[simp] theorem chars_verbatim (s : String) : (verbatim s).chars = s.toList := rfl

end Token

/-- The text of tokens in a row. -/
def render (ts : List Token) : List Char := ts.flatMap Token.chars

@[simp] theorem render_nil : render [] = [] := rfl

@[simp] theorem render_cons (t : Token) (ts : List Token) :
    render (t :: ts) = t.chars ++ render ts := by
  simp [render]

@[simp] theorem render_append (ts us : List Token) :
    render (ts ++ us) = render ts ++ render us := by
  simp [render]

/-- The text of tokens in a row. -/
def renderText (ts : List Token) : String := String.ofList (render ts)

end Kusto.Kql
