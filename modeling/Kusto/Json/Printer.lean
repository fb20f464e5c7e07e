import Kusto.Json.Value
import Kusto.Number.Layout
import Kusto.Text.Pieces

/-!
# Written JSON

Values in document order, without spaces or indented by two. Texts escape the quote, the
backslash and the control characters below U+0020; everything else stands for itself.
-/

open Kusto.Number (Layout intText)
open Kusto.Text (joinWith)

namespace Kusto.Json

/-- Reals are positional from `10 ^ (-5)` up to `10 ^ 16`; exponents show their sign. -/
def realLayout : Layout := ⟨-5, 16, true⟩

/-- A hexadecimal digit, in small letters. -/
def hexDigit (n : Nat) : Char := (Nat.toDigits 16 n).headD '0'

/-- One character of a quoted text. -/
def escaped (c : Char) : List Char :=
  if c = '"' then ['\\', '"']
  else if c = '\\' then ['\\', '\\']
  else if c = '\x08' then ['\\', 'b']
  else if c = '\x0c' then ['\\', 'f']
  else if c = '\n' then ['\\', 'n']
  else if c = '\r' then ['\\', 'r']
  else if c = '\t' then ['\\', 't']
  else if c.toNat < 0x20 then
    ['\\', 'u', '0', '0', hexDigit (c.toNat / 16), hexDigit (c.toNat % 16)]
  else [c]

/-- A text in quotes. -/
def quoted (s : String) : List Char := '"' :: (s.toList.flatMap escaped ++ ['"'])

/-- A number in decimal. -/
def Number.chars : Number → List Char
  | integer n _ => intText n
  | real x => realLayout.finite x

/-- A number in decimal. -/
def Number.text (n : Number) : String := String.ofList n.chars

/-- A truth value as a word. -/
def boolText (b : Bool) : String := if b then "true" else "false"

mutual

/-- A value without spaces. -/
def chars : Json → List Char
  | null => "null".toList
  | bool b => (boolText b).toList
  | num n => n.chars
  | str s => quoted s
  | arr xs => '[' :: (joinWith [','] (itemChars xs) ++ [']'])
  | obj ms => '\x7b' :: (joinWith [','] (memberChars ms) ++ ['\x7d'])
termination_by structural v => v

def itemChars : List Json → List (List Char)
  | [] => []
  | x :: xs => chars x :: itemChars xs
termination_by structural xs => xs

def memberChars : List (String × Json) → List (List Char)
  | [] => []
  | (k, v) :: ms => (quoted k ++ ':' :: chars v) :: memberChars ms
termination_by structural ms => ms

end

/-- A value without spaces. -/
def compact (j : Json) : String := String.ofList j.chars

/-- Entries of a container on lines of their own, `depth` levels in. -/
def block (depth : Nat) (opening closing : Char) (entries : List (List Char)) : List Char :=
  let indent (n : Nat) : List Char := '\n' :: List.replicate (2 * n) ' '
  if entries.isEmpty then [opening, closing]
  else
    opening :: (joinWith [','] (entries.map (indent (depth + 1) ++ ·)) ++ indent depth ++
      [closing])

mutual

/-- A value indented by two, `depth` levels in. -/
def indented (depth : Nat) : Json → List Char
  | arr xs => block depth '[' ']' (indentedItems (depth + 1) xs)
  | obj ms => block depth '\x7b' '\x7d' (indentedMembers (depth + 1) ms)
  | null => chars null
  | bool b => chars (bool b)
  | num n => chars (num n)
  | str s => chars (str s)
termination_by structural v => v

def indentedItems (depth : Nat) : List Json → List (List Char)
  | [] => []
  | x :: xs => indented depth x :: indentedItems depth xs
termination_by structural xs => xs

def indentedMembers (depth : Nat) : List (String × Json) → List (List Char)
  | [] => []
  | (k, v) :: ms => (quoted k ++ ':' :: ' ' :: indented depth v) :: indentedMembers depth ms
termination_by structural ms => ms

end

/-- A value on many lines, indented by two. -/
def pretty (j : Json) : String := String.ofList (indented 0 j)

end Kusto.Json
