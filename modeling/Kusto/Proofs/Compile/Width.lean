import Kusto.Proofs.Compile.Form
import Kusto.Proofs.Kql.Literal
import Kusto.Settings.Basic

/-!
# Widths — what settings that make sense give to keys without a width

The settings accept exactly the widths that can be written in a query (`isWidth_iff`).  So a key by
time that leaves its width open is always written as a bin, without a warning, and the row limit is
never zero (`compile_standardWidth`).
-/

open Kusto.Text (trim isBlankText)

namespace Kusto.Settings

variable {s t : Settings}

/-- **Accepted settings** have a width that is one, if they have any, and another limit than
zero. -/
theorem validate_eq_ok_iff : s.validate = .ok t ↔
    t = s ∧ (∀ w ∈ s.options.defaultInterval, isWidth w) ∧ s.options.limit ≠ some 0 := by
  unfold validate
  split
  · rename_i w hw
    obtain ⟨hmem, hnot⟩ := Option.filter_eq_some_iff.mp hw
    refine iff_of_false (by simp) fun h => ?_
    rw [h.2.1 w hmem] at hnot
    exact absurd hnot (by simp)
  · rename_i hnone
    have hwidths : ∀ w ∈ s.options.defaultInterval, isWidth w := by
      intro w hw
      have hfilter := Option.filter_eq_none_iff.mp hnone w hw
      simpa using hfilter
    split_ifs with hlimit
    · exact iff_of_false (by simp) fun h => h.2.2 hlimit
    · rw [Except.ok.injEq, eq_comm]
      exact ⟨fun h => ⟨h, hwidths, hlimit⟩, And.left⟩

/-- The width that is set, without blanks around it, else the first that is offered. -/
def standardWidth (s : Settings) : String :=
  (s.options.defaultInterval.map trim).getD (BinWidth.all.head (by decide))

end Kusto.Settings

namespace Kusto.Draft

/-- A key by time that names a column and leaves the width open. -/
structure Grouping.LeavesWidth (g : Grouping) : Prop where
  isTime : g.property.type = .dateTime
  isNamed : ¬ isBlankText g.property.name
  isOpen : ∀ p ∈ g.interval, isBlankText p.name

end Kusto.Draft

namespace Kusto.Compile

open Draft (Grouping)
open Kql (Expr Stage)

/-! ## Widths -/

section Widths

variable {ctx : Context} {d : Draft} {g : Grouping} {w : String} {e : Expr}

/-- What can be written as a width is what the settings accept. -/
theorem isWidth_iff : Settings.isWidth w ↔ ∃ e, width? w = some e := by
  unfold Settings.isWidth width?
  split_ifs with hvariable hspan
  · simp [hvariable]
  · simp [hspan]
  · simp [hvariable, hspan]

/-- A width is written without blanks around it. -/
theorem text_width (h : width? w = some e) : e.text = trim w := by
  unfold width? at h
  split_ifs at h with hvariable hspan
  · obtain rfl := Option.some.inj h
    simp [Expr.text, Kql.renderText]
  · obtain rfl := Option.some.inj h
    simp [Expr.text, Kql.renderText, Kql.Literal.token]

theorem text_bin (column width : Expr) : (Expr.call "bin" [column, width]).text =
    "bin(" ++ column.text ++ ", " ++ width.text ++ ")" := by
  apply String.ext
  simp [Expr.text, Kql.renderText, Expr.inParens, Expr.separator, Text.joinWith, Kql.Mark.chars]

/-- A key that leaves its width open has the default width. -/
theorem widthOf_of_leavesWidth (h : g.LeavesWidth) :
    widthOf ctx g = ctx.options.defaultInterval.getD BinWidth.standard := by
  unfold widthOf
  dsimp only
  split
  · rename_i p hp
    exact if_pos (h.isOpen p hp)
  · rfl

variable (ctx) in
/-- It is a bin of that width. -/
theorem groupingPiece_of_leavesWidth (h : g.LeavesWidth)
    (he : width? (ctx.options.defaultInterval.getD BinWidth.standard) = some e) :
    groupingPiece? ctx g = some ⟨.call "bin" [reference ctx g.property, e], []⟩ := by
  unfold groupingPiece?
  dsimp only
  rw [if_neg h.isNamed, if_neg (not_not_intro h.isTime), widthOf_of_leavesWidth h, he]

end Widths

/-! ## Queries -/

section Queries

variable {s : Settings} {ctx : Context} {d : Draft} {before after : List Grouping} {g : Grouping}

/-- Grouping keys as expressions. -/
def keyExprs (ctx : Context) (gs : List Grouping) : List Expr :=
  (gs.filterMap (groupingPiece? ctx)).map Piece.expr

/-- Between the keys before and after it, the key is written as a bin of the width `w`, and no
warning is about it. -/
structure IsBinned (ctx : Context) (d : Draft) (before : List Grouping) (g : Grouping)
    (after : List Grouping) (w : String) : Prop where
  written : ∃ aggregates e,
    e.text = "bin(" ++ (reference ctx g.property).text ++ ", " ++ w ++ ")" ∧
    .summarize aggregates (keyExprs ctx before ++ e :: keyExprs ctx after) ∈
      (compile ctx d).pipeline.stages
  /-- The warnings are those of the draft without the key. -/
  silent : (compile ctx d).warnings =
    (compile ctx { d with groupings.items := before ++ after }).warnings

theorem isBinned_of_piece {e : Expr} (hitems : d.groupings.items = before ++ g :: after)
    (he : groupingPiece? ctx g = some ⟨.call "bin" [reference ctx g.property, e], []⟩) :
    IsBinned ctx d before g after e.text := by
  have hpieces : groupingPieces ctx d = before.filterMap (groupingPiece? ctx) ++
      ⟨.call "bin" [reference ctx g.property, e], []⟩ :: after.filterMap (groupingPiece? ctx) := by
    rw [groupingPieces, hitems, List.filterMap_append, List.filterMap_cons_some he]
  constructor
  · refine ⟨(aggregationPieces ctx d).map Piece.expr, _, text_bin _ _, ?_⟩
    have hne : groupingPieces ctx d ≠ [] := by simp [hpieces]
    have hmem := summarize_mem_stages_of_ne (.inr hne)
    rwa [hpieces, List.map_append, List.map_cons] at hmem
  · have hwarnings : Piece.allWarnings (groupingPieces ctx d) =
        Piece.allWarnings (groupingPieces ctx { d with groupings.items := before ++ after }) := by
      rw [hpieces, groupingPieces, List.filterMap_append]
      simp [Piece.allWarnings]
    exact congrArg (_ ++ ·) hwarnings

/-- The default width of accepted settings can be written. -/
theorem exists_width_of_validate (h : s.validate = .ok s) :
    ∃ e, width? (s.options.defaultInterval.getD BinWidth.standard) = some e := by
  obtain ⟨-, hwidth, -⟩ := Settings.validate_eq_ok_iff.mp h
  refine isWidth_iff.mp ?_
  cases hset : s.options.defaultInterval with
  | none => decide
  | some w => exact hwidth w hset

theorem trim_getD_standard (s : Settings) :
    trim (s.options.defaultInterval.getD BinWidth.standard) = s.standardWidth := by
  unfold Settings.standardWidth
  cases s.options.defaultInterval with
  | none => decide
  | some w => rfl

theorem limit_of_take {n : ℕ} (h : .take n ∈ (compile ctx d).pipeline.stages) :
    ctx.options.limit = some n := by
  change .take n ∈ (pipeline ctx d).stages at h
  rw [stages_pipeline] at h
  simp only [List.mem_append, List.mem_map, Option.mem_toList, Stage.take.injEq, exists_eq_right,
    reduceCtorEq, and_false, exists_false, false_or] at h
  rcases h with hsummary | hlimit
  · unfold summaryStages at hsummary
    dsimp only at hsummary
    split_ifs at hsummary
    · exact absurd hsummary List.not_mem_nil
    · exact absurd (List.mem_singleton.mp hsummary) (by simp)
  · exact hlimit

/-- **Settings that make sense never break a bin**, and never ask for no rows.  Under them a key by
time that leaves its width open is a bin of the standard width without a warning. -/
theorem compile_standardWidth (h : s.validate = .ok s) (ctx : Context) (d : Draft) :
    (∀ before g after, d.groupings.items = before ++ g :: after → g.LeavesWidth →
      IsBinned { ctx with options := s.options } d before g after s.standardWidth) ∧
    ∀ n, .take n ∈ (compile { ctx with options := s.options } d).pipeline.stages →
      ∃ rows : ℕ, 0 < rows ∧ (Stage.take n).tokens = [.keyword .take, .space, .int rows] := by
  constructor
  · intro before g after hitems hopen
    obtain ⟨e, he⟩ := exists_width_of_validate h
    have hbinned := isBinned_of_piece hitems
      (groupingPiece_of_leavesWidth { ctx with options := s.options } hopen he)
    rwa [text_width he, trim_getD_standard] at hbinned
  · intro n hn
    obtain ⟨-, -, hlimit⟩ := Settings.validate_eq_ok_iff.mp h
    -- a limit is capped when it is written, and the cap is not zero
    refine ⟨min n Stage.rowLimit, ?_, rfl⟩
    have hpos : n ≠ 0 := by
      rintro rfl
      exact hlimit (limit_of_take hn)
    have hrows : 0 < Stage.rowLimit := by decide
    omega

/-- A width with blanks around it, and a limit. -/
def fiveMinutes : Settings where
  options := { defaultInterval := some " 5m ", limit := some 10 }

/-- Storms counted by state and by time. -/
def stormsByTime : Draft where
  source := some ⟨"Storms", .string⟩
  aggregations := .all [⟨⟨"", .string⟩, ⟨"count", .function⟩, []⟩]
  groupings := .all [⟨⟨"State", .string⟩, none⟩, ⟨⟨"Start", .dateTime⟩, some ⟨" ", .interval⟩⟩]

theorem compile_standardWidth_storms : fiveMinutes.validate = .ok fiveMinutes ∧
    IsBinned { options := fiveMinutes.options } stormsByTime [⟨⟨"State", .string⟩, none⟩]
      ⟨⟨"Start", .dateTime⟩, some ⟨" ", .interval⟩⟩ [] "5m" ∧
    (compile { options := fiveMinutes.options } stormsByTime).query =
      "Storms | summarize count() by State, bin(Start, 5m) | take 10" := by
  have haccepted : fiveMinutes.validate = .ok fiveMinutes := by decide
  have hopen : Grouping.LeavesWidth ⟨⟨"Start", .dateTime⟩, some ⟨" ", .interval⟩⟩ :=
    ⟨rfl, by decide, by decide⟩
  exact ⟨haccepted, (compile_standardWidth haccepted {} stormsByTime).1 _ _ _ rfl hopen, by decide⟩

end Queries

end Kusto.Compile
