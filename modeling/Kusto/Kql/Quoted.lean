/-!
# Quoted texts

Identifiers and texts in their written form. An identifier is bare if it is a word that is not
reserved, and stands in brackets and single quotes otherwise.
-/

namespace Kusto.Kql

/-! ## Identifiers -/

/-- An ASCII letter or an underscore. -/
def isWordStart (c : Char) : Bool := c.isAlpha || c == '_'

/-- An ASCII letter, an ASCII digit or an underscore. -/
def isWordChar (c : Char) : Bool := c.isAlphanum || c == '_'

/-- A word: letters, digits and underscores, no digit in front. -/
def isWord : List Char → Bool
  | [] => false
  | c :: cs => isWordStart c && cs.all isWordChar

/-- The words that must be quoted, in whatever letter case. -/
def reserved : List String :=
  ["and", "or", "not", "where", "by", "summarize", "take", "limit", "project", "extend", "in",
    "has", "contains", "between", "true", "false", "let", "datetime", "timespan", "dynamic",
    "bin", "database", "table", "with", "on", "join", "union", "sort", "order"]

/-- `cs` is a reserved word in some letter case. -/
def isReserved (cs : List Char) : Bool :=
  reserved.any fun w => w.toList = cs.map Char.toLower

/-- The identifier can stand without quotes. -/
def isBare (cs : List Char) : Bool := isWord cs && !isReserved cs

/-- A text with a backslash before each `mark`. -/
def escapeMark (mark : Char) (cs : List Char) : List Char :=
  cs.flatMap fun c => if c = mark then ['\\', c] else [c]

/-- An identifier in its written form. Between the quotes, the backslashes are escaped first and then
the quotes. -/
def identifier (name : String) : List Char :=
  let cs := name.toList
  if isBare cs then cs
  else '[' :: '\'' :: (escapeMark '\'' (escapeMark '\\' cs) ++ ['\'', ']'])

/-- A character between single quotes. -/
def escapeSingle (c : Char) : List Char :=
  if c = '\\' ∨ c = '\'' then ['\\', c] else [c]

/-- What the second pass writes is not escaped again, so that each character is escaped on its
own. -/
theorem escapeMark_escapeMark (cs : List Char) :
    escapeMark '\'' (escapeMark '\\' cs) = cs.flatMap escapeSingle := by
  unfold escapeMark
  rw [List.flatMap_assoc]
  congr
  funext c
  by_cases hslash : c = '\\'
  · subst hslash
    rfl
  · by_cases hquote : c = '\''
    · subst hquote
      rfl
    · simp [escapeSingle, hslash, hquote]

theorem identifier_of_isBare {name : String} (h : isBare name.toList) :
    identifier name = name.toList :=
  if_pos h

theorem identifier_of_not_isBare {name : String} (h : ¬ isBare name.toList) :
    identifier name = '[' :: '\'' :: (name.toList.flatMap escapeSingle ++ ['\'', ']']) := by
  rw [← escapeMark_escapeMark]
  exact if_neg h

/-! ## Texts -/

/-- A character between double quotes. -/
def escapeDouble (c : Char) : List Char :=
  if c = '\\' ∨ c = '"' then ['\\', c]
  else if c = '\n' then ['\\', 'n']
  else if c = '\r' then ['\\', 'r']
  else if c = '\t' then ['\\', 't']
  else [c]

/-- A text in double quotes. -/
def quoted (s : String) : List Char := '"' :: (s.toList.flatMap escapeDouble ++ ['"'])

/-! ## Comments -/

/-- The text with each `*/` broken by a space. -/
def unclosed : List Char → List Char
  | '*' :: '/' :: cs => '*' :: ' ' :: '/' :: unclosed cs
  | c :: cs => c :: unclosed cs
  | [] => []

/-- A comment that ends where its text does. -/
def comment (s : String) : List Char :=
  '/' :: '*' :: ' ' :: (unclosed s.toList ++ [' ', '*', '/'])

end Kusto.Kql
