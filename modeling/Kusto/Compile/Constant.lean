import Kusto.Draft.Operand
import Kusto.Kql.Expr
import Kusto.Kql.Recognizer
import Kusto.Number.Numeral
import Kusto.Time.Reading

/-!
# Constants

A value typed by the user as a constant of a type. Template variables stand for values of every
type but text; a value that is none of its type gives no constant.
-/

open Kusto.Number (Binary64 int64? binary64?)
open Kusto.Text (trim)

namespace Kusto.Compile

open Draft (Scalar)
open Kql (Expr Literal)

/-- A number other than infinity and NaN. -/
def finiteLiteral? : Binary64 → Option Literal
  | .finite x => some (.real (.finite x))
  | _ => none

/-- An integer if the text is one of 64 bits, else a finite real. -/
def numeral? (cs : List Char) : Option Literal :=
  match int64? cs with
  | some n => some (.int n)
  | none => (binary64? cs).bind finiteLiteral?

/-- A number; truth values are none. -/
def number? : Scalar → Option Literal
  | .number n =>
    match n.int64? with
    | some i => some (.int i)
    | none => finiteLiteral? n.toBinary64
  | .text s => numeral? (trim s).toList
  | .bool _ => none

/-- A truth value, also as a text or a number. -/
def truth? : Scalar → Option Literal
  | .bool b => some (.bool b)
  | v => (Kql.truth? v.asText).map .bool

/-- A point of time, or a time relative to now, which stands as it is. -/
def dateTime? (s : String) : Option Expr :=
  if Kql.isRelativeTime s then some (.verbatim s)
  else if Time.isDateTime s.toList then some (.literal (.dateTime s))
  else none

/-- A length of time. -/
def timeSpan? (s : String) : Option Expr :=
  if Kql.isTimespanLiteral s then some (.literal (.timeSpan s)) else none

/-- A value as a constant of a type. -/
def constant? (type : ValueType) (v : Scalar) : Option Expr :=
  let s := trim v.asText
  if type = .string then some (.literal (.text v.asText))
  else if Kql.isTemplateVariable s then some (.template s)
  else
    match type with
    | .number => (number? v).map .literal
    | .boolean => (truth? v).map .literal
    | .dateTime => dateTime? s
    | .timeSpan => timeSpan? s
    | .string | .function | .interval => none

end Kusto.Compile
