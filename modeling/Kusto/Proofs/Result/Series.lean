import Kusto.Proofs.Result.Grouping
import Kusto.Proofs.Result.Reading
import Mathlib.Algebra.Order.Ring.Nat
import Mathlib.Data.List.Perm.Basic

/-!
# Series of a table — where each measurement goes

A time series has one frame for each group of rows with the same labels and each column of numbers.
Its frames hold every measurement, a number with its time and labels, exactly once.
-/

open Kusto.Number (Binary64)
open Kusto.Time (Instant)

namespace Kusto.Result

/-! ## Rows and columns -/

/-- The labels of a row: the texts of its cells in the columns of texts, empty for null. -/
def rowLabels (t : DataTable) (row : Nat) : List Label := (textColumns t).map (labelAt row)

/-- What the cell of a row is read as; nothing for null. -/
def valueAt {α : Type} (read : Json → Option α) (c : DataColumn) (row : Nat) : Option α :=
  (c.cells[row]?).bind read

theorem map_cells_eq {α : Type} {c : DataColumn} {n : Nat} (h : c.cells.length = n)
    (f : Json → α) :
    c.cells.map f = (List.range n).map fun row => f (c.cells[row]?.getD .null) := by
  subst h
  refine List.ext_getElem (by simp) fun i hi _ => ?_
  have hi : i < c.cells.length := by simpa using hi
  simp [List.getElem?_eq_getElem hi]

theorem labelRows_eq {columns : List DataColumn} {n : Nat}
    (h : ∀ c ∈ columns, c.cells.length = n) :
    labelRows n columns = (List.range n).map fun row => columns.map (labelAt row) := by
  induction columns with
  | nil => simp [labelRows, List.map_const']
  | cons c cs ih =>
    obtain ⟨hc, hcs⟩ := List.forall_mem_cons.mp h
    calc labelRows n (c :: cs)
        = List.zipWith (· :: ·) (c.cells.map (cellLabel c.name)) (labelRows n cs) := rfl
      _ = List.zipWith (· :: ·) ((List.range n).map fun row => labelAt row c)
            ((List.range n).map fun row => cs.map (labelAt row)) := by
          rw [ih hcs, map_cells_eq hc]
          rfl
      _ = (List.range n).map fun row => (c :: cs).map (labelAt row) := by
          rw [List.zipWith_map, List.zipWith_self]
          rfl

section Rows

variable {α : Type} {rows : List (List Label)} {labels : List Label}

/-- The values of the rows with given labels are those at their positions. -/
theorem withLabels_eq {values : List α} (h : values.length = rows.length) :
    withLabels labels rows values = (positions labels rows).filterMap (values[·]?) := by
  -- from the last row, since the positions are counted from the first
  induction rows using List.reverseRecOn generalizing values with
  | nil => rfl
  | append_singleton rows x ih =>
    rcases List.eq_nil_or_concat values with rfl | ⟨vs, v, rfl⟩
    · exact absurd h (by simp)
    · rw [List.concat_eq_append] at h ⊢
      have hlength : vs.length = rows.length := by simpa using h
      have hold : ∀ r ∈ positions labels rows, (vs ++ [v])[r]? = vs[r]? := by
        intro r hr
        exact List.getElem?_append_left (hlength ▸ lt_of_mem_positions hr)
      have hlast : (vs ++ [v])[rows.length]? = some v := by
        rw [← hlength]
        exact List.getElem?_concat_length
      have hzip : withLabels labels (rows ++ [x]) (vs ++ [v]) =
          withLabels labels rows vs ++ if x = labels then [v] else [] := by
        unfold withLabels
        rw [List.zip_append hlength.symm, List.filterMap_append]
        by_cases hx : x = labels <;> simp [hx]
      rw [hzip, ih hlength, positions_concat, List.filterMap_append, List.filterMap_congr hold]
      by_cases hx : x = labels <;> simp [hx, hlast]

theorem withLabels_map_cells {c : DataColumn} (h : c.cells.length = rows.length)
    (read : Json → Option α) : withLabels labels rows (c.cells.map read) =
      (positions labels rows).map (valueAt read c) := by
  have hvalue : ∀ r ∈ positions labels rows,
      (c.cells.map read)[r]? = some (valueAt read c r) := by
    intro r hr
    have hlt : r < c.cells.length := h ▸ lt_of_mem_positions hr
    simp [valueAt, hlt]
  rw [withLabels_eq (by simpa using h), List.filterMap_congr hvalue]
  exact congrFun List.filterMap_eq_map _

end Rows

/-! ## Frames of groups -/

/-- The series of a column in a group of rows. -/
def groupSeries (time : DataColumn) (g : Group) (c : DataColumn) : Frame :=
  seriesFrame time.name (g.rows.map (valueAt cellTime? time)) c.name
    (g.rows.map (valueAt cellNumber? c)) g.labels

/-- A number with its time, its column and the labels of its row. -/
structure Measurement where
  column : String
  labels : List Label
  time : Option Instant
  number : Option Binary64
  deriving DecidableEq

/-- The measurement of a column in a row. -/
def measurementAt (t : DataTable) (time c : DataColumn) (row : Nat) : Measurement :=
  ⟨c.name, rowLabels t row, valueAt cellTime? time row, valueAt cellNumber? c row⟩

/-- The measurements of a series: its times beside its numbers. -/
def Frame.measurements (f : Frame) : List Measurement :=
  match f.fields with
  | [⟨_, _, .times times⟩, ⟨column, labels, .numbers numbers⟩] =>
    List.zipWith (fun time number => ⟨column, labels, time, number⟩) times numbers
  | _ => []

/-- The number of values of a frame, as its first field has it. -/
def Frame.length (f : Frame) : Nat := (f.fields.head?.map fun x => x.values.length).getD 0

theorem length_groupSeries (time : DataColumn) (g : Group) (c : DataColumn) :
    (groupSeries time g c).length = g.rows.length := by
  simp [groupSeries, seriesFrame, Frame.length, Values.length]

theorem measurements_groupSeries {t : DataTable} {time : DataColumn} {g : Group}
    (h : ∀ r ∈ g.rows, rowLabels t r = g.labels) (c : DataColumn) :
    (groupSeries time g c).measurements = g.rows.map (measurementAt t time c) := by
  calc (groupSeries time g c).measurements
      = List.zipWith (fun time number => ⟨c.name, g.labels, time, number⟩)
          (g.rows.map (valueAt cellTime? time)) (g.rows.map (valueAt cellNumber? c)) := rfl
    _ = g.rows.map (measurementAt t time c) := by
        rw [List.zipWith_map, List.zipWith_self]
        refine List.map_congr_left fun r hr => ?_
        rw [measurementAt, h r hr]

/-- Lists over two ranges are the same in either order of the ranges, up to their order. -/
theorem flatMap_flatMap_perm {α β γ : Type} (xs : List α) (ys : List β) (f : α → β → List γ) :
    (xs.flatMap fun x => ys.flatMap (f x)).Perm (ys.flatMap fun y => xs.flatMap (f · y)) := by
  induction xs with
  | nil => simp
  | cons x xs ih =>
    simp only [List.flatMap_cons]
    exact (ih.append_left _).trans (List.flatMap_append_perm ys _ _)

section Groups

variable {t : DataTable} {time : DataColumn} {groups : List Group}

/-- The frames of groups that split the rows hold the measurement of each row and column once. -/
theorem measurements_perm (h : IsGrouping (rowLabels t) t.rowCount groups)
    (columns : List DataColumn) :
    ((groups.flatMap fun g => columns.map (groupSeries time g)).flatMap Frame.measurements).Perm
      (columns.flatMap fun c => (List.range t.rowCount).map (measurementAt t time c)) := by
  have hframes : (groups.flatMap fun g => columns.map (groupSeries time g)).flatMap
      Frame.measurements =
        groups.flatMap fun g => columns.flatMap fun c => g.rows.map (measurementAt t time c) := by
    rw [List.flatMap_assoc]
    refine List.flatMap_congr fun g hg => ?_
    rw [List.flatMap_map]
    exact List.flatMap_congr fun c _ => measurements_groupSeries (h.shared g hg) c
  rw [hframes]
  refine (flatMap_flatMap_perm _ _ _).trans (List.Perm.flatMap_left _ fun c _ => ?_)
  rw [← List.map_flatMap]
  exact h.once.map _

theorem sum_length_groupSeries (h : IsGrouping (rowLabels t) t.rowCount groups)
    (columns : List DataColumn) :
    ((groups.flatMap fun g => columns.map (groupSeries time g)).map Frame.length).sum =
      t.rowCount * columns.length := by
  have hlength : ∀ f ∈ groups.flatMap fun g => columns.map (groupSeries time g),
      f.length = f.measurements.length := by
    intro f hf
    obtain ⟨g, hg, hf⟩ := List.mem_flatMap.mp hf
    obtain ⟨c, -, rfl⟩ := List.mem_map.mp hf
    rw [length_groupSeries, measurements_groupSeries (h.shared g hg), List.length_map]
  rw [List.map_congr_left hlength, ← List.length_flatMap, (measurements_perm h columns).length_eq]
  simp [List.length_flatMap, Nat.mul_comm]

end Groups

/-! ## Tables -/

/-- The columns of numbers, if any. -/
def DataTable.numbers (t : DataTable) : List DataColumn :=
  t.columns.filter (·.valueType = .number)

/-- The frames split the rows of a table by their labels, with times from the column `time`. -/
structure SplitsRows (t : DataTable) (time : DataColumn) (groups : List Group)
    (frames : List Frame) : Prop where
  /-- `time` is the only column of times. -/
  timeColumn : t.columns.filter (·.valueType = .dateTime) = [time]
  /-- Each row has a cell in every column. -/
  even : t.IsEven
  /-- Only null is read as nothing. -/
  times : ∀ x ∈ time.cells, IsReadable cellTime? x
  numbers : ∀ c ∈ t.numbers, ∀ x ∈ c.cells, IsReadable cellNumber? x
  /-- The rows fall into groups by their labels. -/
  grouping : IsGrouping (rowLabels t) t.rowCount groups
  /-- Group by group there is a series for each column of numbers. -/
  series : frames = groups.flatMap fun g => t.numbers.map (groupSeries time g)
  /-- All measurements of the table are in the frames, each of them once. -/
  measurements : (frames.flatMap Frame.measurements).Perm
    (t.numbers.flatMap fun c => (List.range t.rowCount).map (measurementAt t time c))
  total : (frames.map Frame.length).sum = t.rowCount * t.numbers.length

theorem frames_eq_groupSeries {t : DataTable} {time : DataColumn} (heven : t.IsEven)
    (htime : time ∈ t.columns) :
    (distinct (labelRows t.rowCount (textColumns t))).flatMap
        (labelFrames time.name (time.cells.map cellTime?) (namedNumbers t.numbers)
          (labelRows t.rowCount (textColumns t))) =
      (groupsOf ((List.range t.rowCount).map (rowLabels t))).flatMap fun g =>
        t.numbers.map (groupSeries time g) := by
  have hrows : labelRows t.rowCount (textColumns t) = (List.range t.rowCount).map (rowLabels t) :=
    labelRows_eq fun c hc => heven c (List.mem_of_mem_filter hc)
  have hlength : ∀ c ∈ t.columns,
      c.cells.length = ((List.range t.rowCount).map (rowLabels t)).length := by
    intro c hc
    simpa using heven c hc
  rw [hrows, groupsOf, List.flatMap_map]
  refine List.flatMap_congr fun labels _ => ?_
  unfold labelFrames namedNumbers
  rw [List.map_map]
  refine List.map_congr_left fun c hc => ?_
  have hc : c ∈ t.columns := List.mem_of_mem_filter hc
  simp only [Function.comp_apply, groupSeries]
  rw [withLabels_map_cells (hlength time htime), withLabels_map_cells (hlength c hc)]

/-- **A time series neither loses nor repeats a measurement.**  If a table has frames as a time
series, they are those of the groups of its rows: two rows are in one group exactly if their labels
are equal, groups come in the order of their first rows and rows in the order of the table.  Each
group has a series for each column of numbers, so that together they hold the measurement of every
row and column once. -/
theorem timeSeries_splitsRows (t : DataTable) (frames : List Frame)
    (h : shapeTable .timeSeries t = .ok frames) :
    ∃ time groups, SplitsRows t time groups frames := by
  obtain ⟨heven, hseries⟩ := shapeTable_eq_ok_iff.mp h
  obtain ⟨time, columns, htime, ⟨-, rfl⟩, htimes, hnumbers, rfl⟩ := timeSeries_eq_ok_iff.mp hseries
  have hgrouping := isGrouping_groupsOf (rowLabels t) t.rowCount
  refine ⟨time, groupsOf ((List.range t.rowCount).map (rowLabels t)), ?_⟩
  have hframes := frames_eq_groupSeries heven (mem_of_timeColumn htime)
  exact {
    timeColumn := htime
    even := heven
    times := htimes
    numbers := hnumbers
    grouping := hgrouping
    series := hframes
    measurements := hframes ▸ measurements_perm hgrouping t.numbers
    total := hframes ▸ sum_length_groupSeries hgrouping t.numbers }

/-- Three rows of two hosts, one of them without a name. -/
def hostTable : DataTable where
  columns := [
    ⟨"Timestamp", "datetime", [.str "2024-01-01T00:00:00Z", .ofInt 1704067200000, .null]⟩,
    ⟨"Host", "string", [.str "a", .null, .str "a"]⟩,
    ⟨"Count", "long", [.ofInt 1, .ofInt 2, .ofInt 3]⟩,
    ⟨"Load", "real", [.str "NaN", .null, .ofInt 4]⟩]

/-- The start of 2024. -/
def newYear : Time.Instant := ⟨1704067200, 0⟩

def hostFrames : List Frame :=
  let whole (n : Int) : Option Binary64 := some (Binary64.ofInt n)
  [seriesFrame "Timestamp" [some newYear, none] "Count" [whole 1, whole 3] [⟨"Host", "a"⟩],
    seriesFrame "Timestamp" [some newYear, none] "Load" [some .nan, whole 4] [⟨"Host", "a"⟩],
    seriesFrame "Timestamp" [some newYear] "Count" [whole 2] [⟨"Host", ""⟩],
    seriesFrame "Timestamp" [some newYear] "Load" [none] [⟨"Host", ""⟩]]

theorem timeSeries_splitsRows_hosts : shapeTable .timeSeries hostTable = .ok hostFrames ∧
    ∃ time groups, SplitsRows hostTable time groups hostFrames := by
  have hshape : shapeTable .timeSeries hostTable = .ok hostFrames := by decide +kernel
  exact ⟨hshape, timeSeries_splitsRows hostTable hostFrames hshape⟩

end Kusto.Result
