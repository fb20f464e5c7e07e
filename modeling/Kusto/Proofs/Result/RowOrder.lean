import Kusto.Proofs.Result.Delivery
import Kusto.Proofs.Result.NonFinite
import Kusto.Proofs.Result.Series

/-!
# Order of rows — which tables of arrays it matters to

The series of a row depend on that row alone, but which columns have series is decided by the first
array of each.  So the rows of a table of arrays may come in any order exactly if the arrays of each
dynamic column agree on whether they hold numbers and nulls only; then the frames come in blocks,
one for each row, in the order of the rows.
-/

namespace Kusto.Result

/-! ## Rows in another order -/

/-- The cells of the rows `order`, in this order. -/
def DataColumn.reordered (order : List Nat) (c : DataColumn) : DataColumn :=
  { c with cells := order.map fun row => c.cells[row]?.getD .null }

/-- The rows `order`, in this order. -/
def DataTable.reordered (order : List Nat) (t : DataTable) : DataTable :=
  { t with columns := t.columns.map (DataColumn.reordered order) }

/-- With the rows in the order `order`, the same columns have series and give labels, and the
frames come in the same blocks, one for each row with a frame for each column that has series, in
the order of the rows. -/
structure CommutesWith (t : DataTable) (order : List Nat) : Prop where
  arrays : ∀ c ∈ t.columns, c.reordered order ∈ arrayColumns (t.reordered order) ↔
    c ∈ arrayColumns t
  scalars : ∀ c ∈ t.columns, c.reordered order ∈ scalarColumns (t.reordered order) ↔
    c ∈ scalarColumns t
  frames : ∃ block : Nat → List Frame,
    (∀ row, (block row).length = (arrayColumns t).length) ∧
      shapeTable .arraySeries t = .ok ((List.range t.rowCount).flatMap block) ∧
      shapeTable .arraySeries (t.reordered order) = .ok (order.flatMap block)

/-- If an array of the column holds numbers and nulls only, all of them do. -/
def IsUniform (c : DataColumn) : Prop :=
  ∀ a ∈ c.cells, ∀ b ∈ c.cells, ∀ xs ys, cellArray? a = some xs → cellArray? b = some ys →
    (∀ x ∈ xs, IsPlainItem x) → ∀ y ∈ ys, IsPlainItem y

theorem length_order {order : List Nat} {n : Nat} (horder : order.Perm (List.range n)) :
    order.length = n := by
  simpa using horder.length_eq

/-! ## Columns -/

section Columns

variable {c : DataColumn} {order : List Nat} {place row : Nat}

theorem cellAt_reordered (h : order[place]? = some row) :
    (c.reordered order).cells[place]?.getD .null = c.cells[row]?.getD .null := by
  simp [DataColumn.reordered, h]

theorem arrayAt_eq_getD (c : DataColumn) (row : Nat) :
    arrayAt c row = (cellArray? (c.cells[row]?.getD .null)).getD [] := by
  unfold arrayAt
  cases c.cells[row]? <;> rfl

/-- A row has the same array at its new place. -/
theorem arrayAt_reordered (h : order[place]? = some row) :
    arrayAt (c.reordered order) place = arrayAt c row := by
  rw [arrayAt_eq_getD, arrayAt_eq_getD, cellAt_reordered h]

theorem labelAt_reordered (h : order[place]? = some row) :
    labelAt place (c.reordered order) = labelAt row c := by
  unfold labelAt
  rw [cellAt_reordered h]
  rfl

theorem cells_reordered_perm (horder : order.Perm (List.range c.cells.length)) :
    (c.reordered order).cells.Perm c.cells := by
  have hsame : (List.range c.cells.length).map (fun row => c.cells[row]?.getD .null) = c.cells :=
    (map_cells_eq rfl id).symm.trans (List.map_id _)
  exact (horder.map _).trans (.of_eq hsame)

theorem holdsNoArray_reordered (horder : order.Perm (List.range c.cells.length)) :
    holdsNoArray (c.reordered order) = holdsNoArray c :=
  (cells_reordered_perm horder).all_eq

/-- A uniform column has series if any of its arrays holds numbers and nulls only. -/
theorem holdsNumbers_iff_exists (h : IsUniform c) : holdsNumbers c = true ↔
    ∃ a ∈ c.cells, ∃ xs, cellArray? a = some xs ∧ ∀ x ∈ xs, IsPlainItem x := by
  cases hfirst : c.cells.findSome? cellArray? with
  | none =>
    have hnone := List.findSome?_eq_none_iff.mp hfirst
    refine iff_of_false ?_ ?_
    · simp [holdsNumbers, hfirst]
    · rintro ⟨a, ha, xs, hxs, -⟩
      rw [hnone a ha] at hxs
      exact absurd hxs (by simp)
  | some ys =>
    obtain ⟨b, hb, hys⟩ := List.exists_of_findSome?_eq_some hfirst
    rw [holdsNumbers_iff hfirst]
    constructor
    · exact fun hplain => ⟨b, hb, ys, hys, hplain⟩
    · rintro ⟨a, ha, xs, hxs, hplain⟩
      exact h a ha b hb xs ys hxs hys hplain

theorem holdsNumbers_reordered (h : IsUniform c)
    (horder : order.Perm (List.range c.cells.length)) :
    holdsNumbers (c.reordered order) = holdsNumbers c := by
  have hcells := cells_reordered_perm horder
  have huniform : IsUniform (c.reordered order) := fun a ha b hb =>
    h a (hcells.mem_iff.mp ha) b (hcells.mem_iff.mp hb)
  rw [Bool.eq_iff_iff, holdsNumbers_iff_exists h, holdsNumbers_iff_exists huniform]
  simp only [hcells.mem_iff]

/-! ### A row in front -/

/-- The rows, with one of them in front. -/
def withFirst (row n : Nat) : List Nat := row :: (List.range n).erase row

theorem withFirst_perm {n : Nat} (h : row < n) : (withFirst row n).Perm (List.range n) :=
  (List.perm_cons_erase (List.mem_range.mpr h)).symm

/-- With an array in front, it decides. -/
theorem holdsNumbers_withFirst {n : Nat} {a : Json} {xs : List Json}
    (ha : c.cells[row]? = some a) (hxs : cellArray? a = some xs) :
    holdsNumbers (c.reordered (withFirst row n)) = true ↔ ∀ x ∈ xs, IsPlainItem x := by
  refine holdsNumbers_iff ?_
  simp [DataColumn.reordered, withFirst, ha, hxs]

/-- If two arrays of a column do not agree, some order of the rows decides otherwise. -/
theorem exists_order_of_not_isUniform (h : ¬ IsUniform c) :
    ∃ order, order.Perm (List.range c.cells.length) ∧
      holdsNumbers (c.reordered order) ≠ holdsNumbers c := by
  unfold IsUniform at h
  push Not at h
  obtain ⟨a, ha, b, hb, xs, ys, hxs, hys, hplain, y, hy, hmixed⟩ := h
  obtain ⟨i, hi⟩ := List.mem_iff_getElem?.mp ha
  obtain ⟨j, hj⟩ := List.mem_iff_getElem?.mp hb
  have hperm : ∀ row cell, c.cells[row]? = some cell →
      (withFirst row c.cells.length).Perm (List.range c.cells.length) :=
    fun row cell hcell => withFirst_perm (List.getElem?_eq_some_iff.mp hcell).1
  -- the order that decides otherwise has the other array in front
  cases hholds : holdsNumbers c with
  | true =>
    refine ⟨_, hperm j b hj, fun htrue => ?_⟩
    exact hmixed ((holdsNumbers_withFirst hj hys).mp htrue y hy)
  | false =>
    refine ⟨_, hperm i a hi, ?_⟩
    rw [(holdsNumbers_withFirst hi hxs).mpr hplain]
    decide

end Columns

/-! ## Tables -/

section Tables

variable {t : DataTable} {timestamps c : DataColumn} {arrays scalars : List DataColumn}
  {order : List Nat} {frames : List Frame}

/-- The column has series. -/
def isArray (c : DataColumn) : Bool := c.name ≠ timestampName && c.isDynamic && holdsNumbers c

/-- A column that is chosen alike in both orders is chosen in both or in none. -/
theorem mem_filter_reordered_iff {p : DataColumn → Bool} (hc : c ∈ t.columns)
    (hp : p (c.reordered order) = p c) :
    c.reordered order ∈ (t.reordered order).columns.filter p ↔ c ∈ t.columns.filter p := by
  have hmem : c.reordered order ∈ (t.reordered order).columns := List.mem_map_of_mem hc
  rw [List.mem_filter, List.mem_filter, hp, and_iff_right hmem, and_iff_right hc]

/-- Columns that are chosen alike in both orders are chosen in the order of the columns. -/
theorem filter_reordered {p : DataColumn → Bool}
    (hp : ∀ c ∈ t.columns, p (c.reordered order) = p c) :
    (t.reordered order).columns.filter p =
      (t.columns.filter p).map (DataColumn.reordered order) := by
  show (t.columns.map (DataColumn.reordered order)).filter p = _
  rw [List.filter_map]
  exact congrArg _ (List.filter_congr hp)

theorem rowCount_reordered (horder : order.Perm (List.range t.rowCount)) :
    (t.reordered order).rowCount = t.rowCount := by
  cases hcolumns : t.columns with
  | nil => simp [DataTable.reordered, DataTable.rowCount, hcolumns]
  | cons c cs =>
    rw [← length_order horder]
    simp [DataTable.reordered, DataTable.rowCount, hcolumns, DataColumn.reordered]

theorem isEven_reordered (horder : order.Perm (List.range t.rowCount)) :
    (t.reordered order).IsEven := by
  intro _ hmem
  obtain ⟨c, -, rfl⟩ := List.mem_map.mp hmem
  rw [rowCount_reordered horder, ← length_order horder]
  exact List.length_map _

theorem column_reordered (name : String) :
    (t.reordered order).column? name = (t.column? name).map (DataColumn.reordered order) := by
  show (t.columns.map (DataColumn.reordered order)).find? _ = _
  rw [List.find?_map]
  rfl

/-- The columns of labels do not depend on the order of the rows. -/
theorem isScalar_reordered (heven : t.IsEven) (horder : order.Perm (List.range t.rowCount))
    (hc : c ∈ t.columns) : isScalar (c.reordered order) = isScalar c := by
  rw [← heven c hc] at horder
  show (_ && (_ || holdsNoArray (c.reordered order))) = _
  rw [holdsNoArray_reordered horder]
  rfl

theorem isArray_reordered (heven : t.IsEven) (horder : order.Perm (List.range t.rowCount))
    (hc : c ∈ t.columns) (huniform : c.name ≠ timestampName → c.isDynamic = true → IsUniform c) :
    isArray (c.reordered order) = isArray c := by
  rw [← heven c hc] at horder
  rw [Bool.eq_iff_iff]
  unfold isArray
  simp only [Bool.and_eq_true, decide_eq_true_eq]
  refine and_congr_right fun ⟨hname, hdyn⟩ => ?_
  rw [holdsNumbers_reordered (huniform hname hdyn) horder]

/-- A row fits at its new place as it did before. -/
theorem rowFits_reordered {place row : Nat} (hrow : order[place]? = some row)
    (hfits : RowFits timestamps arrays row) :
    RowFits (timestamps.reordered order) (arrays.map (DataColumn.reordered order)) place := by
  constructor
  case times =>
    rw [arrayAt_reordered hrow]
    exact hfits.times
  case numbers =>
    intro _ hmem
    obtain ⟨c, hc, rfl⟩ := List.mem_map.mp hmem
    rw [arrayAt_reordered hrow]
    exact hfits.numbers c hc
  case length =>
    intro _ hmem
    obtain ⟨c, hc, rfl⟩ := List.mem_map.mp hmem
    rw [arrayAt_reordered hrow, arrayAt_reordered hrow]
    exact hfits.length c hc

/-- The series of a row. -/
def rowBlock (timestamps : DataColumn) (arrays scalars : List DataColumn) (row : Nat) :
    List Frame :=
  arrays.map (rowSeries timestamps scalars row)

theorem rowBlock_reordered {place row : Nat} (hrow : order[place]? = some row) :
    rowBlock (timestamps.reordered order) (arrays.map (DataColumn.reordered order))
        (scalars.map (DataColumn.reordered order)) place =
      rowBlock timestamps arrays scalars row := by
  unfold rowBlock
  rw [List.map_map]
  refine List.map_congr_left fun c _ => ?_
  have hlabels : (scalars.map (DataColumn.reordered order)).map (labelAt place) =
      scalars.map (labelAt row) := by
    rw [List.map_map]
    exact List.map_congr_left fun c _ => labelAt_reordered hrow
  simp only [Function.comp_apply, rowSeries, arrayAt_reordered hrow, hlabels]
  rfl

/-- The series of a reordered table are those of the rows in their order. -/
theorem seriesOfRows_reordered (horder : order.Perm (List.range t.rowCount)) :
    seriesOfRows (t.reordered order) (timestamps.reordered order)
        (arrays.map (DataColumn.reordered order)) (scalars.map (DataColumn.reordered order)) =
      order.flatMap (rowBlock timestamps arrays scalars) := by
  have hplaces : (List.range order.length).map (fun place => order[place]?.getD 0) = order :=
    List.ext_getElem (by simp) fun i hi hi' => by simp [hi']
  unfold seriesOfRows
  rw [rowCount_reordered horder, ← length_order horder]
  conv_rhs => rw [← hplaces, List.flatMap_map]
  refine List.flatMap_congr fun place hplace => ?_
  have hrow : order[place]? = some (order[place]?.getD 0) := by
    simp [List.mem_range.mp hplace]
  exact rowBlock_reordered hrow

/-- A column that is not uniform has series in one order of the rows and none in another. -/
theorem isUniform_of_commutesWith (heven : t.IsEven)
    (h : ∀ order, order.Perm (List.range t.rowCount) → CommutesWith t order) :
    ∀ c ∈ t.columns, c.name ≠ timestampName → c.isDynamic = true → IsUniform c := by
  intro c hc hname hdyn
  by_contra hmixed
  obtain ⟨order, horder, hne⟩ := exists_order_of_not_isUniform hmixed
  rw [heven c hc] at horder
  have hsame := (h order horder).arrays c hc
  have hbefore : c ∈ arrayColumns t ↔ holdsNumbers c = true := by
    rw [mem_arrayColumns_iff]
    simp [hc, hname, hdyn]
  have hafter : c.reordered order ∈ arrayColumns (t.reordered order) ↔
      holdsNumbers (c.reordered order) = true := by
    rw [mem_arrayColumns_iff]
    simp only [DataTable.reordered, List.mem_map_of_mem hc, true_and]
    exact and_iff_right ⟨hname, hdyn⟩
  rw [hafter, hbefore] at hsame
  exact hne (Bool.eq_iff_iff.mpr hsame)

theorem commutesWith_of_isUniform (h : shapeTable .arraySeries t = .ok frames)
    (huniform : ∀ c ∈ t.columns, c.name ≠ timestampName → c.isDynamic = true → IsUniform c)
    (horder : order.Perm (List.range t.rowCount)) : CommutesWith t order := by
  obtain ⟨heven, hseries⟩ := shapeTable_eq_ok_iff.mp h
  obtain ⟨timestamps, hfound, harrays, hfits, hframes⟩ := arraySeriesWith_eq_ok_iff.mp hseries
  -- arrays that agree make the column one of arrays whichever of them comes first
  have hisArray : ∀ c ∈ t.columns, isArray (c.reordered order) = isArray c :=
    fun c hc => isArray_reordered heven horder hc (huniform c hc)
  have hisScalar : ∀ c ∈ t.columns, isScalar (c.reordered order) = isScalar c :=
    fun c hc => isScalar_reordered heven horder hc
  have harrayColumns : arrayColumns (t.reordered order) =
      (arrayColumns t).map (DataColumn.reordered order) := filter_reordered hisArray
  have hscalarColumns : scalarColumns (t.reordered order) =
      (scalarColumns t).map (DataColumn.reordered order) := filter_reordered hisScalar
  constructor
  case arrays =>
    exact fun c hc => mem_filter_reordered_iff hc (hisArray c hc)
  case scalars =>
    exact fun c hc => mem_filter_reordered_iff hc (hisScalar c hc)
  case frames =>
    refine ⟨rowBlock timestamps (arrayColumns t) (scalarColumns t), fun row => List.length_map _,
      h.trans (congrArg _ hframes), ?_⟩
    refine shapeTable_eq_ok_iff.mpr ⟨isEven_reordered horder, arraySeriesWith_eq_ok_iff.mpr ?_⟩
    refine ⟨timestamps.reordered order, ?_, ?_, ?_, ?_⟩
    · rw [column_reordered, hfound, Option.map_some]
    · rw [harrayColumns]
      simpa using harrays
    · -- a row of the new order is one of the old table, where it fits
      intro place hplace
      rw [rowCount_reordered horder] at hplace
      have hlt : place < order.length := (length_order horder).symm ▸ hplace
      have hrow := List.mem_range.mp (horder.mem_iff.mp (List.getElem_mem hlt))
      rw [harrayColumns]
      exact rowFits_reordered (List.getElem?_eq_getElem hlt) (hfits _ hrow)
    · rw [harrayColumns, hscalarColumns, seriesOfRows_reordered horder]

/-- **When the order of rows does not matter.**  Of a table that has series, the rows may come in
any order, with the same columns of series and of labels and the same blocks of frames in the order
of the rows, exactly if every dynamic column other than that of the times is uniform: its arrays
agree on whether they hold numbers and nulls only. -/
theorem arraySeries_reordered_iff (t : DataTable) (frames : List Frame)
    (h : shapeTable .arraySeries t = .ok frames) :
    (∀ order, order.Perm (List.range t.rowCount) → CommutesWith t order) ↔
      ∀ c ∈ t.columns, c.name ≠ timestampName → c.isDynamic = true → IsUniform c :=
  ⟨isUniform_of_commutesWith (shapeTable_eq_ok_iff.mp h).1,
    fun huniform _ horder => commutesWith_of_isUniform h huniform horder⟩

end Tables

theorem isUniform_of_plain {c : DataColumn} (h : ∀ b ∈ c.cells, ∀ ys, cellArray? b = some ys →
    ∀ y ∈ ys, IsPlainItem y) : IsUniform c :=
  fun _ _ b hb _ ys _ hys _ => h b hb ys hys

/-- Two rows, the first with a null. -/
theorem arraySeries_reordered_load :
    let rows : LoadRows :=
      [([.ofInt 0, .ofInt 60000], [.ofInt 1, .null]), ([.ofInt 0], [.ofInt 2])]
    (∀ c ∈ (loadTable rows).columns, c.name ≠ timestampName → c.isDynamic = true →
        IsUniform c) ∧
      CommutesWith (loadTable rows) [1, 0] := by
  intro rows
  have hshape : shapeTable .arraySeries (loadTable rows) = .ok
      [seriesFrame "Timestamp" [some ⟨0, 0⟩, some ⟨60, 0⟩] "Load"
          [some (Number.Binary64.ofInt 1), none] [],
        seriesFrame "Timestamp" [some ⟨0, 0⟩] "Load" [some (Number.Binary64.ofInt 2)] []] := by
    decide +kernel
  have huniform : ∀ c ∈ (loadTable rows).columns, c.name ≠ timestampName → c.isDynamic = true →
      IsUniform c := by
    intro c hc hname _
    rcases List.mem_pair.mp hc with rfl | rfl
    · exact absurd rfl hname
    · refine isUniform_of_plain fun b hb ys hys y hy => ?_
      obtain ⟨r, hr, rfl⟩ := List.mem_map.mp hb
      obtain rfl := Option.some.inj hys
      rcases List.mem_pair.mp hr with rfl | rfl
      · rcases List.mem_pair.mp hy with rfl | rfl
        · exact .inr ⟨_, rfl⟩
        · exact .inl rfl
      · exact List.mem_singleton.mp hy ▸ .inr ⟨_, rfl⟩
  exact ⟨huniform, (arraySeries_reordered_iff _ _ hshape).mpr huniform [1, 0] (.swap 0 1 [])⟩

/-- Two rows of counts and loads, with a load that is no number in the second. -/
def loadsTable : DataTable where
  columns := [
    ⟨"Timestamp", "dynamic", [.arr [.ofInt 0], .arr [.ofInt 0]]⟩,
    ⟨"Count", "dynamic", [.arr [.ofInt 1], .arr [.ofInt 2]]⟩,
    ⟨"Load", "dynamic", [.arr [.ofInt 3], .arr [.str "NaN"]]⟩]

/-- With the second row in front, the loads of both rows are gone. -/
theorem not_commutesWith_nanFirst :
    let series (column : String) (number : Number.Binary64) : Frame :=
      seriesFrame "Timestamp" [some ⟨0, 0⟩] column [some number] []
    shapeTable .arraySeries loadsTable = .ok
        [series "Count" (.ofInt 1), series "Load" (.ofInt 3),
          series "Count" (.ofInt 2), series "Load" .nan] ∧
      [1, 0].Perm (List.range loadsTable.rowCount) ∧
      shapeTable .arraySeries (loadsTable.reordered [1, 0]) = .ok
        [series "Count" (.ofInt 2), series "Count" (.ofInt 1)] ∧
      ¬ CommutesWith loadsTable [1, 0] := by
  intro series
  have hframes : shapeTable .arraySeries (loadsTable.reordered [1, 0]) = .ok
      [series "Count" (.ofInt 2), series "Count" (.ofInt 1)] := by decide +kernel
  refine ⟨by decide +kernel, .swap 0 1 [], hframes, fun hcommutes => ?_⟩
  obtain ⟨block, hlength, -, hblocks⟩ := hcommutes.frames
  have hcolumns : (arrayColumns loadsTable).length = 2 := by decide +kernel
  have hcount := congrArg List.length (Except.ok.inj (hframes.symm.trans hblocks))
  simp [hlength, hcolumns] at hcount

end Kusto.Result
