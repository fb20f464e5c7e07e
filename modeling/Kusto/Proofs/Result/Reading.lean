import Kusto.Proofs.Outcome
import Kusto.Result.Shape

/-!
# Readings — when a table has frames, and which

Cells are read one by one, so a list of cells can be read if each of its cells can, and its values
are theirs.  From this, each format of series has a condition on the cells of a table under which
it gives frames, and the frames are written down from the cells.
-/

namespace Kusto.Result

/-! ## Cells -/

section Cells

variable {α : Type} {read : Json → Option α}

/-- A cell that is null or can be read. -/
def IsReadable (read : Json → Option α) (cell : Json) : Prop := cell = .null ∨ (read cell).isSome

theorem readCell_of_ne_null {fault : Json → Fault} {cell : Json} (h : cell ≠ .null) :
    readCell read fault cell =
      match read cell with
      | some v => .ok (some v)
      | none => .error (fault cell) := by
  cases cell with
  | null => exact absurd rfl h
  | _ => rfl

theorem readCell_eq_ok_iff (hnull : read .null = none) {fault : Json → Fault} {cell : Json}
    {v : Option α} : readCell read fault cell = .ok v ↔ IsReadable read cell ∧ v = read cell := by
  by_cases hcell : cell = .null
  · subst hcell
    rw [hnull]
    constructor
    · intro h
      exact ⟨.inl rfl, (Except.ok.inj h).symm⟩
    · rintro ⟨-, rfl⟩
      rfl
  · rw [readCell_of_ne_null hcell]
    cases hread : read cell with
    | some x => simp [IsReadable, hread, eq_comm]
    | none => simp [IsReadable, hread, hcell]

theorem readCells_eq_ok_iff (hnull : read .null = none) {fault : Nat → Json → Fault} {row : Nat}
    {cells : List Json} {vs : List (Option α)} :
    readCells read fault row cells = .ok vs ↔
      (∀ c ∈ cells, IsReadable read c) ∧ vs = cells.map read := by
  induction cells generalizing row vs with
  | nil =>
    show Except.ok [] = Except.ok vs ↔ _
    rw [Except.ok.injEq]
    simp [eq_comm]
  | cons c cs ih =>
    rw [readCells, bind_eq_ok_iff]
    constructor
    · rintro ⟨v, hv, htail⟩
      obtain ⟨ws, hws, hvs⟩ := exists_of_bind_ok htail
      obtain ⟨hc, rfl⟩ := (readCell_eq_ok_iff hnull).mp hv
      obtain ⟨hcs, rfl⟩ := ih.mp hws
      exact ⟨List.forall_mem_cons.mpr ⟨hc, hcs⟩, (Except.ok.inj hvs).symm⟩
    · rintro ⟨hall, rfl⟩
      obtain ⟨hc, hcs⟩ := List.forall_mem_cons.mp hall
      refine ⟨read c, (readCell_eq_ok_iff hnull).mpr ⟨hc, rfl⟩, ?_⟩
      exact bind_eq_ok_iff.mpr ⟨cs.map read, ih.mpr ⟨hcs, rfl⟩, rfl⟩

end Cells

theorem readTimes_eq_ok_iff {column : String} {cells : List Json}
    {vs : List (Option Time.Instant)} : readTimes column cells = .ok vs ↔
      (∀ c ∈ cells, IsReadable cellTime? c) ∧ vs = cells.map cellTime? :=
  readCells_eq_ok_iff rfl

theorem readNumbers_eq_ok_iff {column : String} {cells : List Json}
    {vs : List (Option Number.Binary64)} : readNumbers column cells = .ok vs ↔
      (∀ c ∈ cells, IsReadable cellNumber? c) ∧ vs = cells.map cellNumber? :=
  readCells_eq_ok_iff rfl

/-! ## Tables -/

variable {t : DataTable} {frames : List Frame}

/-- All columns are as long as the first. -/
def DataTable.IsEven (t : DataTable) : Prop := ∀ c ∈ t.columns, c.cells.length = t.rowCount

theorem checkLengths_eq_ok_iff {u : Unit} : checkLengths t = .ok u ↔ t.IsEven := by
  unfold checkLengths DataTable.IsEven
  split
  · rename_i c hc
    have hodd := List.find?_some hc
    have hmem := List.mem_of_find?_eq_some hc
    simp only [decide_eq_true_eq] at hodd
    exact ⟨fun h => absurd h (by simp), fun h => absurd (h c hmem) hodd⟩
  · rename_i hnone
    simpa using hnone

theorem shapeTable_eq_ok_iff {format : ResultFormat} :
    shapeTable format t = .ok frames ↔ t.IsEven ∧
      (match format with
        | .table => do return [← tableFrame t]
        | .timeSeries => timeSeries t
        | .arraySeries => arraySeries t) = .ok frames := by
  unfold shapeTable
  rw [bind_eq_ok_iff]
  constructor
  · rintro ⟨u, hu, h⟩
    exact ⟨checkLengths_eq_ok_iff.mp hu, h⟩
  · rintro ⟨heven, h⟩
    exact ⟨(), checkLengths_eq_ok_iff.mpr heven, h⟩

/-! ## Time series -/

theorem timeColumn_eq_ok_iff {time : DataColumn} :
    timeColumn t = .ok time ↔ t.columns.filter (·.valueType = .dateTime) = [time] := by
  unfold timeColumn
  split
  · rename_i h
    simp [h]
  · rename_i c h
    simp [h]
  · rename_i hnil hone
    exact iff_of_false (by simp) (hone time)

theorem mem_of_timeColumn {time : DataColumn}
    (h : t.columns.filter (·.valueType = .dateTime) = [time]) : time ∈ t.columns := by
  have hone : time ∈ t.columns.filter (·.valueType = .dateTime) := by simp [h]
  exact (List.mem_filter.mp hone).1

theorem numberColumns_eq_ok_iff {columns : List DataColumn} :
    numberColumns t = .ok columns ↔
      columns ≠ [] ∧ t.columns.filter (·.valueType = .number) = columns := by
  unfold numberColumns
  split
  · rename_i h
    rw [h]
    simp +contextual [eq_comm]
  · rename_i hne
    constructor
    · intro h
      obtain rfl := Except.ok.inj h
      exact ⟨hne, rfl⟩
    · rintro ⟨-, rfl⟩
      rfl

/-- The names and numbers of some columns. -/
def namedNumbers (columns : List DataColumn) : List (String × List (Option Number.Binary64)) :=
  columns.map fun c => (c.name, c.cells.map cellNumber?)

theorem readNamed_eq_ok_iff {columns : List DataColumn}
    {numbers : List (String × List (Option Number.Binary64))} :
    columns.mapM (fun c => (readNumbers c.name c.cells).map (c.name, ·)) = .ok numbers ↔
      (∀ c ∈ columns, ∀ x ∈ c.cells, IsReadable cellNumber? x) ∧
        numbers = namedNumbers columns := by
  refine mapM_eq_ok_iff fun c _ p => ?_
  rw [map_eq_ok_iff]
  constructor
  · rintro ⟨values, hread, rfl⟩
    obtain ⟨hall, rfl⟩ := readNumbers_eq_ok_iff.mp hread
    exact ⟨hall, rfl⟩
  · rintro ⟨hall, rfl⟩
    exact ⟨_, readNumbers_eq_ok_iff.mpr ⟨hall, rfl⟩, rfl⟩

/-- A time series has frames if the table has a column of times and some of numbers, and all their
cells can be read. -/
theorem timeSeries_eq_ok_iff : timeSeries t = .ok frames ↔
    ∃ time columns, t.columns.filter (·.valueType = .dateTime) = [time] ∧
      (columns ≠ [] ∧ t.columns.filter (·.valueType = .number) = columns) ∧
      (∀ x ∈ time.cells, IsReadable cellTime? x) ∧
      (∀ c ∈ columns, ∀ x ∈ c.cells, IsReadable cellNumber? x) ∧
      frames = (distinct (labelRows t.rowCount (textColumns t))).flatMap
        (labelFrames time.name (time.cells.map cellTime?) (namedNumbers columns)
          (labelRows t.rowCount (textColumns t))) := by
  unfold timeSeries
  constructor
  · -- the order of the steps decides which fault is told, but not whether there is one
    intro h
    obtain ⟨time, htime, h⟩ := exists_of_bind_ok h
    obtain ⟨columns, hcolumns, h⟩ := exists_of_bind_ok h
    obtain ⟨times, htimes, h⟩ := exists_of_bind_ok h
    obtain ⟨numbers, hnumbers, h⟩ := exists_of_bind_ok h
    obtain ⟨hreadable, rfl⟩ := readTimes_eq_ok_iff.mp htimes
    obtain ⟨hall, rfl⟩ := readNamed_eq_ok_iff.mp hnumbers
    exact ⟨time, columns, timeColumn_eq_ok_iff.mp htime, numberColumns_eq_ok_iff.mp hcolumns,
      hreadable, hall, (Except.ok.inj h).symm⟩
  · rintro ⟨time, columns, htime, hcolumns, hreadable, hall, rfl⟩
    refine bind_eq_ok_iff.mpr ⟨time, timeColumn_eq_ok_iff.mpr htime, ?_⟩
    refine bind_eq_ok_iff.mpr ⟨columns, numberColumns_eq_ok_iff.mpr hcolumns, ?_⟩
    refine bind_eq_ok_iff.mpr ⟨_, readTimes_eq_ok_iff.mpr ⟨hreadable, rfl⟩, ?_⟩
    exact bind_eq_ok_iff.mpr ⟨_, readNamed_eq_ok_iff.mpr ⟨hall, rfl⟩, rfl⟩

/-! ## Series in arrays -/

/-- The arrays in a row can be read, and those of numbers are as long as that of times. -/
structure RowFits (timestamps : DataColumn) (arrays : List DataColumn) (row : Nat) : Prop where
  times : ∀ x ∈ arrayAt timestamps row, IsReadable cellTime? x
  numbers : ∀ c ∈ arrays, ∀ x ∈ arrayAt c row, IsReadable cellNumber? x
  length : ∀ c ∈ arrays, (arrayAt c row).length = (arrayAt timestamps row).length

/-- The series of a column in a row. -/
def rowSeries (timestamps : DataColumn) (scalars : List DataColumn) (row : Nat) (c : DataColumn) :
    Frame :=
  seriesFrame timestampName ((arrayAt timestamps row).map cellTime?) c.name
    ((arrayAt c row).map cellNumber?) (scalars.map (labelAt row))

theorem rowFrame_eq_ok_iff {times : List (Option Time.Instant)} {labels : List Label} {row : Nat}
    {c : DataColumn} {f : Frame} : rowFrame times labels row c = .ok f ↔
      ((∀ x ∈ arrayAt c row, IsReadable cellNumber? x) ∧
        (arrayAt c row).length = times.length) ∧
      f = seriesFrame timestampName times c.name ((arrayAt c row).map cellNumber?) labels := by
  unfold rowFrame
  constructor
  · intro h
    obtain ⟨numbers, hread, h⟩ := exists_of_bind_ok h
    obtain ⟨hreadable, rfl⟩ := readNumbers_eq_ok_iff.mp hread
    dsimp only at h
    split at h
    · exact absurd h (by simp [throw, throwThe, MonadExceptOf.throw, bind, Except.bind])
    · rename_i hlength
      have hlength : (arrayAt c row).length = times.length := by simpa using hlength
      exact ⟨⟨hreadable, hlength⟩, (Except.ok.inj h).symm⟩
  · rintro ⟨⟨hreadable, hlength⟩, rfl⟩
    refine bind_eq_ok_iff.mpr ⟨_, readNumbers_eq_ok_iff.mpr ⟨hreadable, rfl⟩, ?_⟩
    rw [if_neg (by simpa using hlength)]
    rfl

/-- A row gives a series for each column of arrays if its arrays fit. -/
theorem rowFrames_eq_ok_iff {timestamps : DataColumn} {arrays scalars : List DataColumn}
    {row : Nat} : rowFrames timestamps arrays scalars row = .ok frames ↔
      RowFits timestamps arrays row ∧ frames = arrays.map (rowSeries timestamps scalars row) := by
  unfold rowFrames
  have heach : ∀ c ∈ arrays, ∀ f, rowFrame ((arrayAt timestamps row).map cellTime?)
      (scalars.map (labelAt row)) row c = .ok f ↔
        ((∀ x ∈ arrayAt c row, IsReadable cellNumber? x) ∧
          (arrayAt c row).length = (arrayAt timestamps row).length) ∧
        f = rowSeries timestamps scalars row c := by
    intro c _ f
    rw [rowFrame_eq_ok_iff, List.length_map]
    rfl
  constructor
  · intro h
    obtain ⟨times, hread, h⟩ := exists_of_bind_ok h
    obtain ⟨htimes, rfl⟩ := readTimes_eq_ok_iff.mp hread
    obtain ⟨hall, rfl⟩ := (mapM_eq_ok_iff heach).mp h
    exact ⟨⟨htimes, fun c hc => (hall c hc).1, fun c hc => (hall c hc).2⟩, rfl⟩
  · rintro ⟨hfits, rfl⟩
    refine bind_eq_ok_iff.mpr ⟨_, readTimes_eq_ok_iff.mpr ⟨hfits.times, rfl⟩, ?_⟩
    exact (mapM_eq_ok_iff heach).mpr ⟨fun c hc => ⟨hfits.numbers c hc, hfits.length c hc⟩, rfl⟩

/-- The frames of a table of arrays, row by row, with labels from `scalars`. -/
def seriesOfRows (t : DataTable) (timestamps : DataColumn) (arrays scalars : List DataColumn) :
    List Frame :=
  (List.range t.rowCount).flatMap fun row => arrays.map (rowSeries timestamps scalars row)

theorem length_seriesOfRows (t : DataTable) (timestamps : DataColumn)
    (arrays scalars : List DataColumn) :
    (seriesOfRows t timestamps arrays scalars).length = t.rowCount * arrays.length := by
  simp [seriesOfRows, List.length_flatMap, List.map_const']

/-- The series of a table of arrays with labels from `scalars`. -/
def arraySeriesWith (scalars : List DataColumn) (t : DataTable) : Except Fault (List Frame) := do
  match t.column? timestampName with
  | none => throw .noTimestampColumn
  | some timestamps =>
    let arrays := arrayColumns t
    if arrays.isEmpty then throw .noValueColumn
    let rows ← (List.range t.rowCount).mapM (rowFrames timestamps arrays scalars)
    return rows.flatten

theorem arraySeriesWith_of_no_arrays {timestamps : DataColumn} (scalars : List DataColumn)
    (hcolumn : t.column? timestampName = some timestamps) (h : arrayColumns t = []) :
    arraySeriesWith scalars t = .error .noValueColumn := by
  simp only [arraySeriesWith, hcolumn, h]
  rfl

/-- A table of arrays has frames if it has a column of times and one of numbers and all its rows
fit. -/
theorem arraySeriesWith_eq_ok_iff {scalars : List DataColumn} :
    arraySeriesWith scalars t = .ok frames ↔
      ∃ timestamps, t.column? timestampName = some timestamps ∧ arrayColumns t ≠ [] ∧
        (∀ row < t.rowCount, RowFits timestamps (arrayColumns t) row) ∧
        frames = seriesOfRows t timestamps (arrayColumns t) scalars := by
  unfold arraySeriesWith
  cases hcolumn : t.column? timestampName with
  | none => simp [throw, throwThe, MonadExceptOf.throw]
  | some timestamps =>
    have heach : ∀ row ∈ List.range t.rowCount, ∀ fs,
        rowFrames timestamps (arrayColumns t) scalars row = .ok fs ↔
          RowFits timestamps (arrayColumns t) row ∧
            fs = (arrayColumns t).map (rowSeries timestamps scalars row) :=
      fun row _ fs => rowFrames_eq_ok_iff
    constructor
    · intro h
      dsimp only at h
      split at h
      · exact absurd h (by simp [throw, throwThe, MonadExceptOf.throw, bind, Except.bind])
      · rename_i hne
        obtain ⟨rows, hrows, h⟩ := exists_of_bind_ok h
        obtain ⟨hall, rfl⟩ := (mapM_eq_ok_iff heach).mp hrows
        refine ⟨timestamps, rfl, by simpa using hne, ?_, (Except.ok.inj h).symm⟩
        exact fun row hrow => hall row (List.mem_range.mpr hrow)
    · rintro ⟨timestamps', hsome, hne, hall, rfl⟩
      obtain rfl := Option.some.inj hsome
      dsimp only
      rw [if_neg (by simpa using hne)]
      refine bind_eq_ok_iff.mpr ⟨_, (mapM_eq_ok_iff heach).mpr ⟨?_, rfl⟩, rfl⟩
      exact fun row hrow => hall row (List.mem_range.mp hrow)

/-- A table with a column of number arrays and columns of one length has a row. -/
theorem exists_row (heven : t.IsEven) (harrays : arrayColumns t ≠ []) : 0 < t.rowCount := by
  obtain ⟨c, hc⟩ := List.exists_mem_of_ne_nil _ harrays
  obtain ⟨hmem, hnumbers⟩ := List.mem_filter.mp hc
  have hholds : holdsNumbers c = true := (Bool.and_eq_true_iff.mp hnumbers).2
  rw [← heven c hmem]
  refine List.length_pos_iff.mpr fun hnil => ?_
  rw [holdsNumbers, hnil] at hholds
  exact absurd hholds (by simp)

end Kusto.Result
