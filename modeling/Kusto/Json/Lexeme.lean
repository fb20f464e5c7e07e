import Kusto.Json.Value
import Kusto.Number.Scaled

/-!
# Lexemes of JSON

A text is cut into lexemes by a machine that takes one character at a time. Texts may not hold
raw control characters, surrogates are accepted in pairs only, and a number that is no 64-bit
integer is read as a real in two roundings (`Binary64.scaled?`).
-/

open Kusto.Number

namespace Kusto.Json

/-- A mark, a word, a number or a quoted text. -/
inductive Lexeme where
  | openArray
  | closeArray
  | openObject
  | closeObject
  | comma
  | colon
  | null
  | bool (value : Bool)
  | number (value : Json.Number)
  | text (value : String)
  deriving DecidableEq

/-! ## Numbers -/

/-- The leading digits that fit in 64 bits after `start`, and the digits from the first that
does not fit. -/
def takeFitting (start : Nat) : List Char → Nat × List Char
  | [] => (start, [])
  | c :: cs =>
    let n := 10 * start + digitValue c
    if n < UInt64.size then takeFitting n cs else (start, c :: cs)

/-- A real: whole digits that do not fit count as zeros, fraction digits that do not fit are
dropped. -/
def realNumber? (negative : Bool) (whole fraction : List Char) (exponent : Int) :
    Option Json.Number := do
  let (n, lost) := takeFitting 0 whole
  let (n, dropped) := takeFitting n fraction
  let shift := (lost.length : Int) - (fraction.length - dropped.length : Nat)
  let x ← Binary64.scaled? n (exponent + shift)
  return .real (if negative then x.neg else x)

/-- A number without fraction and exponent: an integer if it fits, `-0` being a real. -/
def wholeNumber? (negative : Bool) (whole : List Char) : Option Json.Number :=
  let n := signed negative (digitsValue whole)
  if h : isInteger64 n ∧ ¬(negative ∧ n = 0) then some (.integer n h.1)
  else realNumber? negative whole [] 0

/-- No superfluous zero in front. -/
def isWhole : List Char → Bool
  | ['0'] => true
  | c :: cs => c != '0' && isDigits (c :: cs)
  | [] => false

/-- A JSON number: optional minus, whole digits, optional fraction, optional exponent. -/
def number? (cs : List Char) : Option Json.Number := do
  let (negative, body) :=
    match cs with
    | '-' :: rest => (true, rest)
    | rest => (false, rest)
  let whole := body.takeWhile Char.isDigit
  if !isWhole whole then none
  else
    match body.dropWhile Char.isDigit with
    | [] => wholeNumber? negative whole
    | '.' :: more =>
      let fraction := more.takeWhile Char.isDigit
      let e ← exponent? (more.dropWhile Char.isDigit)
      if fraction.isEmpty then none else realNumber? negative whole fraction e
    | more => do realNumber? negative whole [] (← exponent? more)

/-! ## The machine -/

/-- What has been read of the lexeme in hand; characters are newest first. -/
inductive Scan where
  | idle
  | word (typed : List Char)
  | number (typed : List Char)
  | text (typed : List Char)
  /-- A backslash has been read. -/
  | escape (typed : List Char)
  /-- The first hexadecimal digits of a code unit, with the first half of a pair. -/
  | unit (typed : List Char) (high : Option Nat) (value : Nat) (digits : Nat)
  /-- The first half of a pair has been read. -/
  | half (typed : List Char) (high : Nat)
  /-- The first half of a pair and a backslash have been read. -/
  | halfEscape (typed : List Char) (high : Nat)

/-- The value of a hexadecimal digit. -/
def hexValue? (c : Char) : Option Nat :=
  if c.isDigit then some (digitValue c)
  else if 'a' ≤ c ∧ c ≤ 'f' then some (10 + (c.toNat - 'a'.toNat))
  else if 'A' ≤ c ∧ c ≤ 'F' then some (10 + (c.toNat - 'A'.toNat))
  else none

/-- The character after a backslash, `u` apart. -/
def escape? (c : Char) : Option Char :=
  if c = '"' ∨ c = '\\' ∨ c = '/' then some c
  else if c = 'b' then some '\x08'
  else if c = 'f' then some '\x0c'
  else if c = 'n' then some '\n'
  else if c = 'r' then some '\r'
  else if c = 't' then some '\t'
  else none

/-- A code unit is complete. -/
def endUnit (typed : List Char) (high : Option Nat) (value : Nat) : Option Scan :=
  match high with
  | none =>
    if 0xD800 ≤ value ∧ value < 0xDC00 then some (.half typed value)
    else if 0xDC00 ≤ value ∧ value < 0xE000 then none
    else some (.text (Char.ofNat value :: typed))
  | some h =>
    if 0xDC00 ≤ value ∧ value < 0xE000 then
      some (.text (Char.ofNat (0x10000 + (h - 0xD800) * 0x400 + (value - 0xDC00)) :: typed))
    else none

/-- A bare word. -/
def word? (cs : List Char) : Option Lexeme :=
  if cs = "null".toList then some .null
  else if cs = "true".toList then some (.bool true)
  else if cs = "false".toList then some (.bool false)
  else none

/-- A character that may stand in a number. -/
def isNumberChar (c : Char) : Bool :=
  c.isDigit || c == '-' || c == '+' || c == '.' || c == 'e' || c == 'E'

/-- A character between lexemes, or the first of a lexeme. -/
def begin (c : Char) : Option (List Lexeme × Scan) :=
  if c = ' ' ∨ c = '\t' ∨ c = '\n' ∨ c = '\r' then some ([], .idle)
  else if c = '[' then some ([.openArray], .idle)
  else if c = ']' then some ([.closeArray], .idle)
  else if c = '\x7b' then some ([.openObject], .idle)
  else if c = '\x7d' then some ([.closeObject], .idle)
  else if c = ',' then some ([.comma], .idle)
  else if c = ':' then some ([.colon], .idle)
  else if c = '"' then some ([], .text [])
  else if c = '-' ∨ c.isDigit then some ([], .number [c])
  else if 'a' ≤ c ∧ c ≤ 'z' then some ([], .word [c])
  else none

/-- The lexeme in hand has ended. -/
def Scan.finish : Scan → Option (List Lexeme)
  | idle => some []
  | word typed => (word? typed.reverse).map ([·])
  | number typed => (number? typed.reverse).map ([.number ·])
  | _ => none

/-- One character: the lexemes that it ends, and the state after it. -/
def Scan.step (s : Scan) (c : Char) : Option (List Lexeme × Scan) :=
  match s with
  | idle => begin c
  | word typed =>
    if 'a' ≤ c ∧ c ≤ 'z' then some ([], word (c :: typed))
    else do
      let ended ← s.finish
      let (more, next) ← begin c
      return (ended ++ more, next)
  | number typed =>
    if isNumberChar c then some ([], number (c :: typed))
    else do
      let ended ← s.finish
      let (more, next) ← begin c
      return (ended ++ more, next)
  | text typed =>
    if c = '"' then some ([.text (String.ofList typed.reverse)], idle)
    else if c = '\\' then some ([], escape typed)
    else if c.toNat < 0x20 then none
    else some ([], text (c :: typed))
  | escape typed =>
    if c = 'u' then some ([], unit typed none 0 0)
    else (escape? c).map fun d => ([], text (d :: typed))
  | unit typed high value digits => do
    let v := 16 * value + (← hexValue? c)
    if digits < 3 then return ([], unit typed high v (digits + 1))
    else return ([], ← endUnit typed high v)
  | half typed high => if c = '\\' then some ([], halfEscape typed high) else none
  | halfEscape typed high => if c = 'u' then some ([], unit typed (some high) 0 0) else none

/-- The lexemes read so far, newest first, and the state of the machine. -/
abbrev Scanned := List Lexeme × Scan

/-- One character more. -/
def Scanned.step (r : Scanned) (c : Char) : Option Scanned := do
  let (ended, next) ← r.2.step c
  return (ended.reverse ++ r.1, next)

/-- The lexemes of a text. -/
def lexemes? (cs : List Char) : Option (List Lexeme) := do
  let (done, last) ← cs.foldlM Scanned.step ([], Scan.idle)
  return (done.reverse ++ (← last.finish))

end Kusto.Json
