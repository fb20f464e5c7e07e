import Kusto.Kql.Expr
import Kusto.Vocabulary.ValueType

/-!
# Warnings

What cannot be written in a query. The place of it in the query is taken by a marker, a comment
with the message of the warning.
-/

namespace Kusto.Compile

open Kql (Expr)

/-- A problem in a draft. The query is written all the same. -/
inductive Warning where
  /-- The operator or function is not known, or not for values of this type. -/
  | unsupported (property operator : String) (type : ValueType)
  /-- The value is not one of this type. -/
  | invalid (property value : String) (type : ValueType)
  /-- A function of numbers is applied to a column of another type. -/
  | mismatch (property function : String) (type : ValueType)
  /-- There is no source. -/
  | missingSource
  deriving DecidableEq

def Warning.message : Warning → String
  | unsupported property operator type =>
    "unsupported: " ++ operator ++ " on " ++ type.title ++ " column " ++ property
  | invalid property value type =>
    "invalid " ++ type.title ++ " value for " ++ property ++ ": " ++ value
  | mismatch property function type =>
    function ++ " expects a numeric column, " ++ property ++ " is " ++ type.title
  | missingSource => "no source table selected"

/-- A part of a query with the warnings about it. -/
structure Piece where
  expr : Expr
  warnings : List Warning := []

/-- An expression, or the marker for the warning in its place. -/
def Piece.ofResult : Except Warning Expr → Piece
  | .ok e => ⟨e, []⟩
  | .error w => ⟨.marker w.message, [w]⟩

/-- The warnings about parts, in the order of the parts. -/
def Piece.allWarnings (ps : List Piece) : List Warning := ps.flatMap Piece.warnings

end Kusto.Compile
