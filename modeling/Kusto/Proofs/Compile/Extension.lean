import Kusto.Proofs.Compile.Form
import Kusto.Proofs.Schema.Discovery

/-!
# Extended columns — discovery leaves queries as they were

A query is told by its draft and by two things that are read off the columns: the paths that names
stand for, and the column of the time filter (`compile_congr`).  What is discovered below a column
changes neither, unless it brings the first column of times (`compile_discovered`).
-/

namespace Kusto.Compile

open Draft (Condition Aggregation Grouping Clause)
open Schema (discovered dynamicPath_addAll_discovered)

/-! ## What is read off the columns -/

section Congruence

/-- The columns of the two give every name the same path and have the same column for the time
filter; all else is the same. -/
structure ReadsAlike (a b : Context) : Prop where
  paths : ∀ name, a.columns.dynamicPath? name = b.columns.dynamicPath? name
  time : timeFilter? a = timeFilter? b
  database : a.database = b.database
  alias_eq : a.alias? = b.alias?
  options : a.options = b.options

variable {a b : Context} (h : ReadsAlike a b)
include h

theorem reference_congr : reference a = reference b := by
  funext p
  unfold reference
  rw [h.paths]

theorem condition_congr : condition a = condition b := by
  funext c
  unfold condition comparison
  rw [reference_congr h]

theorem alternativesPiece_congr : alternativesPiece? a = alternativesPiece? b := by
  have hpiece : conditionPiece? a = conditionPiece? b := by
    funext c
    unfold conditionPiece?
    rw [condition_congr h]
  funext g
  unfold alternativesPiece?
  rw [hpiece]

theorem aggregationPiece_congr : aggregationPiece? a = aggregationPiece? b := by
  funext x
  unfold aggregationPiece?
  rw [reference_congr h]

theorem groupingPiece_congr : groupingPiece? a = groupingPiece? b := by
  funext g
  unfold groupingPiece? widthOf
  rw [reference_congr h, h.options]

theorem sourceOf_congr : sourceOf a = sourceOf b := by
  funext d
  unfold sourceOf
  rw [h.alias_eq, h.database]

/-- What is read alike is compiled alike. -/
theorem compile_congr : compile a = compile b := by
  have hfilter : filterPieces a = filterPieces b := by
    funext d
    unfold filterPieces
    rw [alternativesPiece_congr h]
  have haggregations : aggregationPieces a = aggregationPieces b := by
    funext d
    unfold aggregationPieces
    rw [aggregationPiece_congr h]
  have hgroupings : groupingPieces a = groupingPieces b := by
    funext d
    unfold groupingPieces
    rw [groupingPiece_congr h]
  funext d
  unfold compile pipeline warnings filter?
  rw [hfilter, haggregations, hgroupings, sourceOf_congr h, h.time, h.options]

end Congruence

/-! ## What is discovered -/

section Discovered

variable (ctx : Context)

/-- The context with the columns added that are discovered below a column. -/
def withDiscovered (column : String) (shape : Json) : Context :=
  { ctx with columns := ctx.columns.addAll (discovered column shape) }

variable {ctx} {column : String}

/-- A time filter that is off stays off, and one that has its column keeps it. -/
theorem timeFilter_withDiscovered
    (htime : ctx.options.timeFilter = false ∨ ctx.columns.firstDateTime?.isSome)
    (shape : Json) : timeFilter? (withDiscovered ctx column shape) = timeFilter? ctx := by
  unfold timeFilter? withDiscovered
  dsimp only
  rcases htime with hoff | hsome
  · rw [hoff]
    rfl
  · obtain ⟨c, hc⟩ := Option.isSome_iff_exists.mp hsome
    rw [Columns.firstDateTime_addAll hc, hc]

/-- **Discovery does not change queries.**  Whatever is found below a column that is there, and
whatever keys and types its shape has: with no time filter, or with a column of times for it, every
draft has the same query as before, the same stages and the same warnings. -/
theorem compile_discovered (hcolumn : (ctx.columns.find? column).isSome)
    (htime : ctx.options.timeFilter = false ∨ ctx.columns.firstDateTime?.isSome)
    (shape : Json) (d : Draft) :
    (compile (withDiscovered ctx column shape) d).query = (compile ctx d).query ∧
      (compile (withDiscovered ctx column shape) d).pipeline = (compile ctx d).pipeline ∧
      (compile (withDiscovered ctx column shape) d).warnings = (compile ctx d).warnings := by
  have halike : ReadsAlike (withDiscovered ctx column shape) ctx :=
    ⟨dynamicPath_addAll_discovered hcolumn shape, timeFilter_withDiscovered htime shape, rfl, rfl,
      rfl⟩
  rw [compile_congr halike]
  exact ⟨rfl, rfl, rfl⟩

/-- Storms with a column of times, a dynamic column, and a filter on times. -/
def storms : Context where
  columns := [⟨"Start", "datetime"⟩, ⟨"Info", "dynamic"⟩]
  options := { timeFilter := true }

/-- A shape with a time, a value that is dynamic itself, and a key with a dot. -/
def infoShape : Json :=
  .obj [("Seen", .str "datetime"), ("Details", .str "dynamic"), ("a.b", .arr [.str "long"])]

/-- The storms grouped by the time that is to be discovered. -/
def stormsSeen : Draft where
  source := some ⟨"Storms", .string⟩
  groupings := .all [⟨⟨"Info.Seen", .dateTime⟩, none⟩]

theorem compile_discovered_storms :
    (storms.columns.find? "Info").isSome ∧ storms.columns.firstDateTime?.isSome ∧
      (withDiscovered storms "Info" infoShape).columns.length = 5 ∧
      (compile (withDiscovered storms "Info" infoShape) stormsSeen).query =
        "Storms | where $__timeFilter(Start) | summarize by bin(todatetime(Info[\"Seen\"]), 1m)" := by
  have hcolumn : (storms.columns.find? "Info").isSome := by decide
  have htime : storms.columns.firstDateTime?.isSome := by decide
  have hsame := compile_discovered hcolumn (.inr htime) infoShape stormsSeen
  exact ⟨hcolumn, htime, by decide, hsame.1.trans (by decide)⟩

end Discovered

end Kusto.Compile
