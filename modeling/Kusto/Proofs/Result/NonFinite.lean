import Kusto.Proofs.Result.Reading
import Mathlib.Data.List.Basic

/-!
# Numbers that are not finite — which columns of arrays have series

An array of numbers may hold texts for the numbers that are not finite, and every such array can be
read.  Whether its column has series is decided by the first array alone, and there such a text
counts against it.  So every column of arrays of numbers has a series for each row exactly if no
column begins with an array that has such a text.
-/

namespace Kusto.Result

/-! ## Columns of series -/

/-- The texts that stand for the numbers that are not finite. -/
def nonFiniteTexts : List String := ["NaN", "Infinity", "-Infinity"]

/-- A number or null. -/
def IsPlainItem (x : Json) : Prop := x = .null ∨ ∃ n, x = .num n

/-- An item of an array of numbers: a number or null, or a text for a number that is not finite. -/
def IsSeriesItem (x : Json) : Prop := IsPlainItem x ∨ ∃ s ∈ nonFiniteTexts, x = .str s

/-- Each cell is an array of numbers, as long as the array of times in its row. -/
def IsSeriesColumn (timestamps c : DataColumn) : Prop :=
  ∀ row cell, c.cells[row]? = some cell → ∃ items, cellArray? cell = some items ∧
    items.length = (arrayAt timestamps row).length ∧ ∀ x ∈ items, IsSeriesItem x

/-- A table of series: it has a column of arrays of times, and every other dynamic column has
arrays of numbers or none at all. -/
structure IsSeriesTable (t : DataTable) (timestamps : DataColumn) : Prop where
  even : t.IsEven
  found : t.column? timestampName = some timestamps
  times : ∀ cell ∈ timestamps.cells, ∃ items, cellArray? cell = some items ∧
    ∀ x ∈ items, (cellTime? x).isSome
  columns : ∀ c ∈ t.columns, c.name ≠ timestampName → c.isDynamic = true →
    IsSeriesColumn timestamps c ∨ ∀ cell ∈ c.cells, cellArray? cell = none

/-- The columns that should have series: the dynamic ones with an array. -/
def seriesColumns (t : DataTable) : List DataColumn :=
  t.columns.filter fun c =>
    c.name ≠ timestampName && c.isDynamic && (c.cells.findSome? cellArray?).isSome

/-- The array in the first row has no text. -/
def StartsPlain (c : DataColumn) : Prop := ∀ x ∈ arrayAt c 0, IsPlainItem x

/-! ## Items -/

theorem isReadable_of_isSeriesItem {x : Json} (h : IsSeriesItem x) : IsReadable cellNumber? x := by
  rcases h with (rfl | ⟨n, rfl⟩) | ⟨s, hs, rfl⟩
  · exact .inl rfl
  · exact .inr rfl
  · have hall : ∀ s ∈ nonFiniteTexts, (cellNumber? (.str s)).isSome = true := by decide
    exact .inr (hall s hs)

theorem holdsNumbers_iff {c : DataColumn} {items : List Json}
    (h : c.cells.findSome? cellArray? = some items) :
    holdsNumbers c = true ↔ ∀ x ∈ items, IsPlainItem x := by
  unfold holdsNumbers
  rw [h]
  dsimp only
  rw [List.all_eq_true]
  refine forall₂_congr fun x _ => ?_
  cases x <;> simp [IsPlainItem]

theorem arrayAt_of_cell {c : DataColumn} {row : Nat} {cell : Json} {items : List Json}
    (hcell : c.cells[row]? = some cell) (hitems : cellArray? cell = some items) :
    arrayAt c row = items := by
  rw [arrayAt, hcell, Option.bind_some, hitems, Option.getD_some]

/-! ## Tables of series -/

section Table

variable {t : DataTable} {timestamps c : DataColumn}

theorem mem_seriesColumns_iff : c ∈ seriesColumns t ↔ c ∈ t.columns ∧
    (c.name ≠ timestampName ∧ c.isDynamic = true) ∧
      (c.cells.findSome? cellArray?).isSome = true := by
  rw [seriesColumns, List.mem_filter, Bool.and_eq_true, Bool.and_eq_true, decide_eq_true_eq]

theorem mem_arrayColumns_iff : c ∈ arrayColumns t ↔ c ∈ t.columns ∧
    (c.name ≠ timestampName ∧ c.isDynamic = true) ∧ holdsNumbers c = true := by
  rw [arrayColumns, List.mem_filter, Bool.and_eq_true, Bool.and_eq_true, decide_eq_true_eq]

theorem isSome_of_holdsNumbers (h : holdsNumbers c = true) :
    (c.cells.findSome? cellArray?).isSome = true := by
  unfold holdsNumbers at h
  cases hfirst : c.cells.findSome? cellArray? with
  | none =>
    rw [hfirst] at h
    exact absurd h (by simp)
  | some items => rfl

theorem arrayColumns_sublist (t : DataTable) : (arrayColumns t).Sublist (seriesColumns t) := by
  refine List.monotone_filter_right t.columns fun c hc => ?_
  rw [Bool.and_eq_true] at hc ⊢
  exact ⟨hc.1, isSome_of_holdsNumbers hc.2⟩

/-- If there is a series in each row for every column of arrays, none of these columns is left
out: the number of frames would tell. -/
theorem arrayColumns_eq_of_shapeTable (hall : shapeTable .arraySeries t =
    .ok (seriesOfRows t timestamps (seriesColumns t) (scalarColumns t))) :
    arrayColumns t ≠ [] ∧ arrayColumns t = seriesColumns t := by
  obtain ⟨heven, hseries⟩ := shapeTable_eq_ok_iff.mp hall
  obtain ⟨timestamps', -, harrays, -, hframes⟩ := arraySeriesWith_eq_ok_iff.mp hseries
  have hlength := congrArg List.length hframes
  rw [length_seriesOfRows, length_seriesOfRows] at hlength
  have hcount := Nat.eq_of_mul_eq_mul_left (exists_row heven harrays) hlength
  exact ⟨harrays, (arrayColumns_sublist t).eq_of_length hcount.symm⟩

variable (h : IsSeriesTable t timestamps)
include h

theorem isSeriesColumn_of_mem (hc : c ∈ seriesColumns t) : IsSeriesColumn timestamps c := by
  obtain ⟨hmem, ⟨hname, hdyn⟩, hsome⟩ := mem_seriesColumns_iff.mp hc
  rcases h.columns c hmem hname hdyn with hseries | hnone
  · exact hseries
  · rw [List.findSome?_eq_none_iff.mpr hnone] at hsome
    exact absurd hsome (by simp)

/-- The first array of a column of series is the one in the first row. -/
theorem findSome_of_mem (hc : c ∈ seriesColumns t) :
    c.cells.findSome? cellArray? = some (arrayAt c 0) := by
  have hsome := (mem_seriesColumns_iff.mp hc).2.2
  cases hcells : c.cells with
  | nil =>
    rw [hcells] at hsome
    exact absurd hsome (by simp)
  | cons cell cells =>
    have hcell : c.cells[0]? = some cell := by simp [hcells]
    obtain ⟨items, hitems, -⟩ := isSeriesColumn_of_mem h hc 0 cell hcell
    rw [List.findSome?_cons, hitems, arrayAt_of_cell hcell hitems]

/-- The columns that have series are those that begin without a text. -/
theorem mem_arrayColumns_iff_startsPlain :
    c ∈ arrayColumns t ↔ c ∈ seriesColumns t ∧ StartsPlain c := by
  constructor
  · intro hc
    have hseries := (arrayColumns_sublist t).subset hc
    have hnumbers := (mem_arrayColumns_iff.mp hc).2.2
    exact ⟨hseries, (holdsNumbers_iff (findSome_of_mem h hseries)).mp hnumbers⟩
  · rintro ⟨hseries, hplain⟩
    obtain ⟨hmem, hdyn, -⟩ := mem_seriesColumns_iff.mp hseries
    have hnumbers := (holdsNumbers_iff (findSome_of_mem h hseries)).mpr hplain
    exact mem_arrayColumns_iff.mpr ⟨hmem, hdyn, hnumbers⟩

/-- Every row of a table of series fits. -/
theorem rowFits_of_isSeriesTable {row : Nat} (hrow : row < t.rowCount) :
    RowFits timestamps (arrayColumns t) row := by
  -- a column that is kept is one of series, so its array in this row is as long as the times
  have hitems : ∀ c ∈ arrayColumns t, ∃ items, arrayAt c row = items ∧
      items.length = (arrayAt timestamps row).length ∧ ∀ x ∈ items, IsSeriesItem x := by
    intro c hc
    have hlt : row < c.cells.length :=
      (h.even c (mem_arrayColumns_iff.mp hc).1).symm ▸ hrow
    have hcell := List.getElem?_eq_getElem hlt
    have hseries := isSeriesColumn_of_mem h ((arrayColumns_sublist t).subset hc)
    obtain ⟨items, harray, hall⟩ := hseries row _ hcell
    exact ⟨items, arrayAt_of_cell hcell harray, hall⟩
  constructor
  case times =>
    intro x hx
    have hmem : timestamps ∈ t.columns := List.mem_of_find?_eq_some h.found
    have hlt : row < timestamps.cells.length := (h.even timestamps hmem).symm ▸ hrow
    have hcell := List.getElem?_eq_getElem hlt
    obtain ⟨items, harray, hall⟩ := h.times _ (List.getElem_mem hlt)
    rw [arrayAt_of_cell hcell harray] at hx
    exact .inr (hall x hx)
  case numbers =>
    intro c hc x hx
    obtain ⟨items, rfl, -, hall⟩ := hitems c hc
    exact isReadable_of_isSeriesItem (hall x hx)
  case length =>
    intro c hc
    obtain ⟨items, rfl, hlength, -⟩ := hitems c hc
    exact hlength

/-- A table of series has those of the columns that begin without a text. -/
theorem shapeTable_of_isSeriesTable : shapeTable .arraySeries t =
    if arrayColumns t = [] then .error .noValueColumn
    else .ok (seriesOfRows t timestamps (arrayColumns t) (scalarColumns t)) := by
  split
  · rename_i hnone
    have hlengths := checkLengths_eq_ok_iff (u := ()).mpr h.even
    show checkLengths t >>= (fun _ => arraySeriesWith (scalarColumns t) t) = _
    rw [hlengths]
    exact arraySeriesWith_of_no_arrays _ h.found hnone
  · rename_i hne
    refine shapeTable_eq_ok_iff.mpr ⟨h.even, arraySeriesWith_eq_ok_iff.mpr ?_⟩
    exact ⟨timestamps, h.found, hne, fun row hrow => rowFits_of_isSeriesTable h hrow, rfl⟩

/-- All columns of arrays of numbers have series if they all begin without a text. -/
theorem arrayColumns_eq_iff :
    arrayColumns t = seriesColumns t ↔ ∀ c ∈ seriesColumns t, StartsPlain c := by
  constructor
  · intro heq c hc
    rw [← heq] at hc
    exact ((mem_arrayColumns_iff_startsPlain h).mp hc).2
  · intro hplain
    -- both are the columns of the table that a filter keeps
    refine List.filter_congr fun c hc => Bool.eq_iff_iff.mpr ⟨fun hkept => ?_, fun hkept => ?_⟩
    · have harray : c ∈ arrayColumns t := List.mem_filter.mpr ⟨hc, hkept⟩
      exact (List.mem_filter.mp ((arrayColumns_sublist t).subset harray)).2
    · have hseries : c ∈ seriesColumns t := List.mem_filter.mpr ⟨hc, hkept⟩
      have harray := (mem_arrayColumns_iff_startsPlain h).mpr ⟨hseries, hplain c hseries⟩
      exact (List.mem_filter.mp harray).2

end Table

/-- **Which numeric series are dropped.**  In a table of series, the dynamic columns with arrays of
numbers and nulls, and of texts for numbers that are not finite, the columns that have series are
those whose first array has no such text; they have one in each row, and nothing else is a fault.
All columns have one in each row exactly if there are any and all begin so. -/
theorem arraySeries_nonFinite_iff (t : DataTable) (timestamps : DataColumn)
    (h : IsSeriesTable t timestamps) :
    (∀ c, c ∈ arrayColumns t ↔ c ∈ seriesColumns t ∧ StartsPlain c) ∧
    (shapeTable .arraySeries t =
      if arrayColumns t = [] then .error .noValueColumn
      else .ok (seriesOfRows t timestamps (arrayColumns t) (scalarColumns t))) ∧
    (shapeTable .arraySeries t =
        .ok (seriesOfRows t timestamps (seriesColumns t) (scalarColumns t)) ↔
      seriesColumns t ≠ [] ∧ ∀ c ∈ seriesColumns t, StartsPlain c) := by
  have hshape := shapeTable_of_isSeriesTable h
  refine ⟨fun c => mem_arrayColumns_iff_startsPlain h, hshape, fun hall => ?_, ?_⟩
  · obtain ⟨hne, heq⟩ := arrayColumns_eq_of_shapeTable hall
    exact ⟨heq ▸ hne, (arrayColumns_eq_iff h).mp heq⟩
  · rintro ⟨hne, hplain⟩
    rw [hshape, (arrayColumns_eq_iff h).mpr hplain, if_neg hne]

section Loads

/-- Rows of times and loads. -/
abbrev LoadRows := List (List Json × List Json)

def timesColumn (rows : LoadRows) : DataColumn :=
  ⟨"Timestamp", "dynamic", rows.map fun r => .arr r.1⟩

def loadColumn (rows : LoadRows) : DataColumn :=
  ⟨"Load", "dynamic", rows.map fun r => .arr r.2⟩

def loadTable (rows : LoadRows) : DataTable where
  columns := [timesColumn rows, loadColumn rows]

theorem isSeriesTable_load {rows : LoadRows}
    (h : ∀ r ∈ rows, (∀ x ∈ r.1, (cellTime? x).isSome) ∧ r.2.length = r.1.length ∧
      ∀ x ∈ r.2, IsSeriesItem x) :
    IsSeriesTable (loadTable rows) (timesColumn rows) := by
  constructor
  case even =>
    intro c hc
    rcases List.mem_pair.mp hc with rfl | rfl <;>
      simp [loadTable, timesColumn, loadColumn, DataTable.rowCount]
  case found => rfl
  case times =>
    intro cell hcell
    obtain ⟨r, hr, rfl⟩ := List.mem_map.mp hcell
    exact ⟨r.1, rfl, (h r hr).1⟩
  case columns =>
    intro c hc hname _
    rcases List.mem_pair.mp hc with rfl | rfl
    · exact absurd rfl hname
    · refine .inl fun row cell hcell => ?_
      rw [loadColumn, List.getElem?_map, Option.map_eq_some_iff] at hcell
      obtain ⟨r, hr, rfl⟩ := hcell
      have htimes : (timesColumn rows).cells[row]? = some (.arr r.1) := by
        rw [timesColumn, List.getElem?_map, hr, Option.map_some]
      obtain ⟨-, hlength, hitems⟩ := h r (List.mem_of_getElem? hr)
      refine ⟨r.2, rfl, ?_, hitems⟩
      rw [hlength, arrayAt_of_cell htimes rfl]

/-- The first array is plain, so that the others may hold texts. -/
theorem arraySeries_nonFinite_load :
    let rows : LoadRows :=
      [([.ofInt 0, .ofInt 60000], [.ofInt 1, .null]), ([.ofInt 0], [.str "-Infinity"])]
    IsSeriesTable (loadTable rows) (timesColumn rows) ∧
      shapeTable .arraySeries (loadTable rows) = .ok
        [seriesFrame "Timestamp" [some ⟨0, 0⟩, some ⟨60, 0⟩] "Load"
          [some (Number.Binary64.ofInt 1), none] [],
        seriesFrame "Timestamp" [some ⟨0, 0⟩] "Load" [some (.infinite true)] []] := by
  intro rows
  have htable : IsSeriesTable (loadTable rows) (timesColumn rows) := by
    refine isSeriesTable_load (List.forall_mem_cons.mpr ⟨⟨by decide +kernel, rfl, ?_⟩,
      List.forall_mem_cons.mpr ⟨⟨by decide +kernel, rfl, ?_⟩, by simp⟩⟩)
    · exact List.forall_mem_cons.mpr ⟨.inl (.inr ⟨_, rfl⟩), by simp [IsSeriesItem, IsPlainItem]⟩
    · simp [IsSeriesItem, nonFiniteTexts]
  have hall := arraySeries_nonFinite_iff (loadTable rows) _ htable
  refine ⟨htable, hall.2.1.trans ?_⟩
  decide +kernel

/-- A first array that begins with such a text: its column is the only one, and has no series. -/
theorem not_series_nanFirst :
    let rows : LoadRows :=
      [([.ofInt 0, .ofInt 60000], [.str "NaN", .ofInt 1])]
    IsSeriesTable (loadTable rows) (timesColumn rows) ∧
      seriesColumns (loadTable rows) = [loadColumn rows] ∧
      readNumbers "Load" [.str "NaN", .ofInt 1] =
        .ok [some .nan, some (Number.Binary64.ofInt 1)] ∧
      shapeTable .arraySeries (loadTable rows) = .error .noValueColumn := by
  intro rows
  refine ⟨isSeriesTable_load (List.forall_mem_cons.mpr ⟨⟨by decide +kernel, rfl, ?_⟩, by simp⟩),
    by decide +kernel, by decide +kernel, by decide +kernel⟩
  exact List.forall_mem_cons.mpr ⟨.inr ⟨"NaN", by decide, rfl⟩,
    List.forall_mem_cons.mpr ⟨.inl (.inr ⟨_, rfl⟩), by simp⟩⟩

end Loads

end Kusto.Result
