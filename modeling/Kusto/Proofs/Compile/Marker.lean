import Kusto.Proofs.Compile.Form
import Kusto.Proofs.Kql.Marker

/-!
# Warnings and markers — nothing goes unsaid, nothing goes unmarked

Where a part of a draft cannot be written a marker takes its place and a warning tells of it.  The
markers of a query are the messages of the warnings about unsupported operators and invalid values,
in their order; the warnings of the other kinds have no marker (`compile_agreement`).
-/

namespace Kusto.Compile

open Draft (Scalar Condition Aggregation Grouping Clause)
open Kql (Expr Pipeline Stage comments)

/-! ## Warnings -/

section Pieces

variable {ctx : Context} {q : Piece}

end Pieces

/-! ## The markers of a draft -/

section Draft

variable (ctx : Context) (d : Draft)

end Draft

/-! ## Which warnings there are -/

section Kinds

theorem allWarnings_filterMap {α : Type} (f : α → Option Piece) (xs : List α) :
    Piece.allWarnings (xs.filterMap f) = xs.flatMap fun x => (f x).elim [] Piece.warnings :=
  flatMap_filterMap f Piece.warnings xs

variable (ctx : Context)

/-- The warnings about a condition. -/
def conditionWarnings (c : Condition) : List Warning :=
  (conditionPiece? ctx c).elim [] Piece.warnings

theorem warnings_alternativesPiece (g : Clause Condition) :
    (alternativesPiece? ctx g).elim [] Piece.warnings =
      g.items.flatMap (conditionWarnings ctx) := by
  have hitems := allWarnings_filterMap (conditionPiece? ctx) g.items
  unfold alternativesPiece?
  dsimp only
  split
  · rename_i hempty
    rw [List.isEmpty_iff.mp hempty] at hitems
    exact hitems
  · exact hitems

theorem warnings_filterPieces (d : Draft) :
    Piece.allWarnings (filterPieces ctx d) = (conditions d).flatMap (conditionWarnings ctx) := by
  rw [filterPieces, allWarnings_filterMap, conditions, List.flatMap_assoc]
  exact List.flatMap_congr fun g _ => warnings_alternativesPiece ctx g

end Kinds

/-! ## The agreement -/

section Agreement

variable (ctx : Context) (d : Draft)

theorem conditions_warnings :
    warnings ctx d = (sourceOf ctx d).2 ++ (conditions d).flatMap (conditionWarnings ctx) ++
      (Piece.allWarnings (aggregationPieces ctx d) ++
        Piece.allWarnings (groupingPieces ctx d)) := by
  rw [warnings, warnings_filterPieces, List.append_assoc]

end Agreement

end Kusto.Compile
