import Kusto.Proofs.Result.Series

/-!
# Shaping by positions — no position is out of range

The formats once more, with rows, groups and columns taken by their positions: a position outside of
its list stops the reading.  Groups are kept in a table that also says where the group of each
combination of labels stands.  Row after row the table stays that of the rows before it, so no
reading is ever stopped, and it gives what the format gives.  All frames are rectangular.
-/

open Kusto.Number (Binary64)
open Kusto.Time (Instant)

namespace Kusto.Result.Indexed

variable {α β : Type}

/-! ## Positions -/

/-- Why a reading by positions stops. -/
inductive Stop where
  | outOfRange
  | fault (fault : Fault)
  deriving DecidableEq

/-- The item at a position. -/
def itemAt (xs : List α) (i : Nat) : Except Stop α :=
  match xs[i]? with
  | some x => .ok x
  | none => .error .outOfRange

theorem itemAt_of_getElem? {xs : List α} {i : Nat} {x : α} (h : xs[i]? = some x) :
    itemAt xs i = .ok x := by
  rw [itemAt, h]

theorem mapM_itemAt {xs : List α} {is : List Nat} (h : ∀ i ∈ is, i < xs.length) :
    is.mapM (itemAt xs) = .ok (is.filterMap (xs[·]?)) := by
  induction is with
  | nil => rfl
  | cons i is ih =>
    obtain ⟨hi, his⟩ := List.forall_mem_cons.mp h
    rw [List.mapM_cons, ih his, itemAt_of_getElem? (List.getElem?_eq_getElem hi),
      List.filterMap_cons, List.getElem?_eq_getElem hi]
    rfl

/-- A list is read by its positions as it is read item by item. -/
theorem mapM_range {xs : List α} {f : Nat → Except Stop β} {g : α → β}
    (h : ∀ i x, xs[i]? = some x → f i = .ok (g x)) :
    (List.range xs.length).mapM f = .ok (xs.map g) := by
  induction xs using List.reverseRecOn with
  | nil => rfl
  | append_singleton xs x ih =>
    have hold : (List.range xs.length).mapM f = .ok (xs.map g) := by
      refine ih fun i y hi => h i y ?_
      rw [List.getElem?_append_left (List.getElem?_eq_some_iff.mp hi).1]
      exact hi
    have hlast : f xs.length = .ok (g x) := h _ x List.getElem?_concat_length
    rw [List.length_append, List.length_singleton, List.range_succ, List.mapM_append, hold,
      List.mapM_cons, hlast, List.map_append]
    rfl

/-- A reading without positions. -/
def lift (x : Except Fault α) : Except Stop α := x.mapError .fault

@[simp] theorem lift_ok (a : α) : lift (.ok a) = .ok a := rfl

@[simp] theorem lift_error (w : Fault) : lift (.error w : Except Fault α) = .error (.fault w) := rfl

theorem lift_ne_outOfRange (x : Except Fault α) : lift x ≠ .error .outOfRange := by
  cases x <;> simp

theorem lift_bind {x : Except Fault α} {f : α → Except Stop β} {g : α → Except Fault β}
    (h : ∀ a, x = .ok a → f a = lift (g a)) : lift x >>= f = lift (x >>= g) := by
  cases x with
  | error w => rfl
  | ok a => exact h a rfl

theorem lift_mapM (f : α → Except Fault β) (xs : List α) :
    lift (xs.mapM f) = xs.mapM fun x => lift (f x) := by
  induction xs with
  | nil => rfl
  | cons x xs ih =>
    rw [List.mapM_cons, List.mapM_cons, ← ih]
    exact (lift_bind fun y _ => lift_bind fun ys _ => rfl).symm

/-! ## Readings -/

/-- The label that a column gives to a row. -/
def labelAt (row : Nat) (c : DataColumn) : Except Stop Label := do
  return cellLabel c.name (← itemAt c.cells row)

/-- The array of a column in a row. -/
def arrayAt (c : DataColumn) (row : Nat) : Except Stop (List Json) := do
  return (cellArray? (← itemAt c.cells row)).getD []

/-- Groups of rows, and where the group of each combination of labels stands. -/
structure GroupTable where
  groups : List Group := []
  places : List (List Label × Nat) := []

/-- A row with its labels joins its group, or a new one. -/
def GroupTable.add (table : GroupTable) (row : Nat) (labels : List Label) :
    Except Stop GroupTable :=
  match table.places.lookup labels with
  | some place => do
    let group ← itemAt table.groups place
    let joined : Group := { group with rows := group.rows ++ [row] }
    return { table with groups := table.groups.set place joined }
  | none =>
    return ⟨table.groups ++ [⟨labels, [row]⟩], table.places ++ [(labels, table.groups.length)]⟩

/-- The groups of the first `rows` rows. -/
def groupRows (columns : List DataColumn) (rows : Nat) : Except Stop GroupTable :=
  (List.range rows).foldlM (fun table row => do table.add row (← columns.mapM (labelAt row))) {}

/-- The series of a column, by its position, in a group. -/
def groupFrame (timeName : String) (times : List (Option Instant)) (columns : List DataColumn)
    (numbers : List (String × List (Option Binary64))) (g : Group) (i : Nat) :
    Except Stop Frame := do
  let column ← itemAt columns i
  let values ← itemAt numbers i
  return seriesFrame timeName times column.name (← g.rows.mapM (itemAt values.2)) g.labels

/-- The series of a group. -/
def groupFrames (timeName : String) (times : List (Option Instant)) (columns : List DataColumn)
    (numbers : List (String × List (Option Binary64))) (g : Group) :
    Except Stop (List Frame) := do
  let series ← g.rows.mapM (itemAt times)
  (List.range columns.length).mapM (groupFrame timeName series columns numbers g)

def timeSeries (t : DataTable) : Except Stop (List Frame) := do
  let time ← lift (timeColumn t)
  let columns ← lift (numberColumns t)
  let times ← lift (readTimes time.name time.cells)
  let numbers ← lift (columns.mapM fun c => (readNumbers c.name c.cells).map (c.name, ·))
  let table ← groupRows (textColumns t) t.rowCount
  return (← table.groups.mapM (groupFrames time.name times columns numbers)).flatten

/-- The series of a column in a row. -/
def rowFrame (times : List (Option Instant)) (labels : List Label) (row : Nat) (c : DataColumn) :
    Except Stop Frame := do
  let cells ← arrayAt c row
  let numbers ← lift (readNumbers c.name cells)
  if numbers.length ≠ times.length then
    throw (.fault (.length c.name times.length numbers.length))
  return seriesFrame timestampName times c.name numbers labels

/-- The series in a row. -/
def rowFrames (timestamps : DataColumn) (arrays scalars : List DataColumn) (row : Nat) :
    Except Stop (List Frame) := do
  let cells ← arrayAt timestamps row
  let times ← lift (readTimes timestamps.name cells)
  let labels ← scalars.mapM (labelAt row)
  arrays.mapM (rowFrame times labels row)

def arraySeries (t : DataTable) : Except Stop (List Frame) := do
  match t.column? timestampName with
  | none => throw (.fault .noTimestampColumn)
  | some timestamps =>
    let arrays := arrayColumns t
    if arrays.isEmpty then throw (.fault .noValueColumn)
    let rows ← (List.range t.rowCount).mapM (rowFrames timestamps arrays (scalarColumns t))
    return rows.flatten

/-- The frames of a table, with all rows, groups and columns taken by their positions. -/
def shapeTable (format : ResultFormat) (t : DataTable) : Except Stop (List Frame) := do
  lift (checkLengths t)
  match format with
  | .table => lift (do return [← tableFrame t])
  | .timeSeries => timeSeries t
  | .arraySeries => arraySeries t

/-! ## Groups -/

section Groups

variable {rows : List (List Label)} {labels : List Label}

/-- The table of the groups of some rows. -/
def tableOf (rows : List (List Label)) : GroupTable := ⟨groupsOf rows, (distinct rows).zipIdx⟩

theorem lookup_zipIdx_of_mem [BEq α] [LawfulBEq α] {x : α} {xs : List α} (h : x ∈ xs) (n : Nat) :
    (xs.zipIdx n).lookup x = some (n + xs.idxOf x) := by
  induction xs generalizing n with
  | nil => exact absurd h List.not_mem_nil
  | cons y ys ih =>
    rw [List.zipIdx_cons, List.lookup_cons]
    by_cases hxy : x = y
    · simp [hxy]
    · have hbeq : (x == y) = false := by simpa using hxy
      have hyx : (y == x) = false := by simpa using fun heq => hxy heq.symm
      have hx : x ∈ ys := (List.mem_cons.mp h).resolve_left hxy
      rw [hbeq, List.idxOf_cons, hyx, ih hx]
      simp
      omega

theorem lookup_zipIdx_of_not_mem [BEq α] [LawfulBEq α] {x : α} {xs : List α} (h : x ∉ xs)
    (n : Nat) : (xs.zipIdx n).lookup x = none := by
  refine List.lookup_eq_none_iff.mpr fun p hp => ?_
  have hne : x ≠ p.1 := fun heq => h (heq ▸ List.fst_mem_of_mem_zipIdx hp)
  simpa using hne

/-- Another row with known labels changes their group only. -/
theorem groupsOf_concat_of_mem (h : labels ∈ distinct rows) :
    groupsOf (rows ++ [labels]) = (groupsOf rows).set ((distinct rows).idxOf labels)
      ⟨labels, positions labels rows ++ [rows.length]⟩ := by
  have hplace := List.getElem?_idxOf h
  refine List.ext_getElem? fun i => ?_
  rw [List.getElem?_set, groupsOf, distinct_concat, if_pos h, List.getElem?_map]
  by_cases hi : (distinct rows).idxOf labels = i
  · subst hi
    rw [if_pos rfl, hplace, if_pos (by simpa [groupsOf] using List.idxOf_lt_length_of_mem h)]
    simp [positions_concat]
  · rw [if_neg hi, groupsOf, List.getElem?_map]
    refine Option.map_congr fun other hother => ?_
    have hne : labels ≠ other := by
      rintro rfl
      have hlt := List.idxOf_lt_length_of_mem h
      exact hi ((List.getElem?_inj hlt (nodup_distinct rows)).mp (hplace.trans hother.symm))
    rw [positions_concat, if_neg hne, List.append_nil]

/-- Another row with new labels has a group of its own. -/
theorem groupsOf_concat_of_not_mem (h : labels ∉ distinct rows) :
    groupsOf (rows ++ [labels]) = groupsOf rows ++ [⟨labels, [rows.length]⟩] := by
  have hpositions : positions labels rows = [] :=
    List.eq_nil_iff_forall_not_mem.mpr fun r hr =>
      h (mem_distinct.mpr (List.mem_iff_getElem?.mpr ⟨r, mem_positions.mp hr⟩))
  unfold groupsOf
  rw [distinct_concat, if_neg h, List.map_append, List.map_singleton, positions_concat,
    hpositions, if_pos rfl]
  refine congrArg (· ++ _) (List.map_congr_left fun other hother => ?_)
  have hne : labels ≠ other := fun heq => h (heq ▸ hother)
  rw [positions_concat, if_neg hne, List.append_nil]

/-- The table of some rows becomes that of one row more: the place of known labels is in range. -/
theorem add_tableOf (rows : List (List Label)) (labels : List Label) :
    (tableOf rows).add rows.length labels = .ok (tableOf (rows ++ [labels])) := by
  unfold GroupTable.add
  -- the places know the labels exactly if an earlier row has them
  by_cases h : labels ∈ distinct rows
  · have hlookup := lookup_zipIdx_of_mem h 0
    rw [Nat.zero_add] at hlookup
    have hgroup : (groupsOf rows)[(distinct rows).idxOf labels]? =
        some ⟨labels, positions labels rows⟩ := by
      rw [groupsOf, List.getElem?_map, List.getElem?_idxOf h]
      rfl
    simp only [tableOf, hlookup, itemAt_of_getElem? hgroup]
    rw [groupsOf_concat_of_mem h, distinct_concat, if_pos h]
    rfl
  · have hlookup := lookup_zipIdx_of_not_mem h 0
    have hlength : (groupsOf rows).length = (distinct rows).length := by simp [groupsOf]
    simp only [tableOf, hlookup]
    rw [groupsOf_concat_of_not_mem h, distinct_concat, if_neg h, List.zipIdx_append, hlength,
      Nat.zero_add]
    rfl

theorem labelAt_of_lt {row : Nat} {c : DataColumn} (h : row < c.cells.length) :
    labelAt row c = .ok (Result.labelAt row c) := by
  have hcell := List.getElem?_eq_getElem h
  rw [labelAt, itemAt_of_getElem? hcell, Result.labelAt, hcell]
  rfl

theorem mapM_labelAt {row : Nat} {columns : List DataColumn}
    (h : ∀ c ∈ columns, row < c.cells.length) :
    columns.mapM (labelAt row) = .ok (columns.map (Result.labelAt row)) :=
  mapM_eq_ok_map fun c hc => labelAt_of_lt (h c hc)

/-- After any number of rows that all columns have, the table is that of these rows. -/
theorem groupRows_eq {columns : List DataColumn} {n : Nat}
    (h : ∀ c ∈ columns, n ≤ c.cells.length) :
    groupRows columns n =
      .ok (tableOf ((List.range n).map fun row => columns.map (Result.labelAt row))) := by
  -- the invariant is the table of the rows so far, to which the next row is added
  induction n with
  | zero => rfl
  | succ n ih =>
    have hstep := add_tableOf ((List.range n).map fun row => columns.map (Result.labelAt row))
      (columns.map (Result.labelAt n))
    rw [List.length_map, List.length_range] at hstep
    have hlabels : columns.mapM (labelAt n) = .ok (columns.map (Result.labelAt n)) :=
      mapM_labelAt h
    have hbefore := ih fun c hc => Nat.le_of_succ_le (h c hc)
    unfold groupRows at hbefore ⊢
    rw [List.range_succ, List.foldlM_append, hbefore, List.map_append, List.map_singleton]
    show (do (tableOf _).add n (← columns.mapM (labelAt n))) >>= pure = _
    rw [hlabels]
    exact congrArg (· >>= pure) hstep

end Groups

/-! ## The same frames -/

section Same

variable {t : DataTable}

theorem mapM_itemAt_positions {labels : List Label} {rows : List (List Label)} {values : List α}
    (h : values.length = rows.length) : (positions labels rows).mapM (itemAt values) =
      .ok (withLabels labels rows values) := by
  rw [withLabels_eq h]
  exact mapM_itemAt fun r hr => h ▸ lt_of_mem_positions hr

/-- A group has the series that its labels have among all rows. -/
theorem groupFrames_eq {timeName : String} {times : List (Option Instant)}
    {columns : List DataColumn} {labels : List Label} {rows : List (List Label)}
    (htimes : times.length = rows.length)
    (hcolumns : ∀ c ∈ columns, c.cells.length = rows.length) :
    groupFrames timeName times columns (namedNumbers columns) ⟨labels, positions labels rows⟩ =
      .ok (labelFrames timeName times (namedNumbers columns) rows labels) := by
  -- a column and its numbers stand at the same place of two lists
  have hseries : ∀ i c, columns[i]? = some c →
      groupFrame timeName (withLabels labels rows times) columns (namedNumbers columns)
          ⟨labels, positions labels rows⟩ i =
        .ok (seriesFrame timeName (withLabels labels rows times) c.name
          (withLabels labels rows (c.cells.map cellNumber?)) labels) := by
    intro i c hc
    have hnumbers : (namedNumbers columns)[i]? = some (c.name, c.cells.map cellNumber?) := by
      rw [namedNumbers, List.getElem?_map, hc]
      rfl
    have hlength : (c.cells.map cellNumber?).length = rows.length := by
      simpa using hcolumns c (List.mem_of_getElem? hc)
    unfold groupFrame
    rw [itemAt_of_getElem? hc, itemAt_of_getElem? hnumbers]
    dsimp only [bind, Except.bind]
    rw [mapM_itemAt_positions hlength]
    rfl
  unfold groupFrames
  rw [mapM_itemAt_positions htimes]
  refine (mapM_range hseries).trans ?_
  rw [labelFrames, namedNumbers, List.map_map]
  rfl

theorem timeSeries_eq (heven : t.IsEven) : timeSeries t = lift (Result.timeSeries t) := by
  refine lift_bind fun time htime => lift_bind fun columns hcolumns => ?_
  refine lift_bind fun times htimes => lift_bind fun numbers hnumbers => ?_
  obtain ⟨-, hcolumns⟩ := numberColumns_eq_ok_iff.mp hcolumns
  obtain ⟨-, rfl⟩ := readTimes_eq_ok_iff.mp htimes
  obtain ⟨-, rfl⟩ := readNamed_eq_ok_iff.mp hnumbers
  -- all columns are of one length, so each index that follows is in range
  have hlabels : ∀ c ∈ textColumns t, c.cells.length = t.rowCount :=
    fun c hc => heven c (List.mem_of_mem_filter hc)
  have hlength : (labelRows t.rowCount (textColumns t)).length = t.rowCount := by
    rw [labelRows_eq hlabels, List.length_map, List.length_range]
  have htimeLength : (time.cells.map cellTime?).length =
      (labelRows t.rowCount (textColumns t)).length := by
    rw [List.length_map, hlength, heven time (mem_of_timeColumn (timeColumn_eq_ok_iff.mp htime))]
  have hcolumnLength : ∀ c ∈ columns,
      c.cells.length = (labelRows t.rowCount (textColumns t)).length := by
    intro c hc
    rw [hlength]
    exact heven c (List.mem_of_mem_filter (hcolumns ▸ hc))
  rw [groupRows_eq fun c hc => Nat.le_of_eq (hlabels c hc).symm, ← labelRows_eq hlabels]
  have hgroups : (tableOf (labelRows t.rowCount (textColumns t))).groups.mapM
      (groupFrames time.name (time.cells.map cellTime?) columns (namedNumbers columns)) =
      .ok ((distinct (labelRows t.rowCount (textColumns t))).map
        (labelFrames time.name (time.cells.map cellTime?) (namedNumbers columns)
          (labelRows t.rowCount (textColumns t)))) := by
    rw [tableOf, groupsOf, List.mapM_map]
    exact mapM_eq_ok_map fun labels _ => groupFrames_eq htimeLength hcolumnLength
  dsimp only [bind, Except.bind]
  rw [hgroups]
  rfl

/-! ### Series in arrays -/

theorem arrayAt_of_lt {c : DataColumn} {row : Nat} (h : row < c.cells.length) :
    arrayAt c row = .ok (Result.arrayAt c row) := by
  have hcell := List.getElem?_eq_getElem h
  rw [arrayAt, itemAt_of_getElem? hcell, Result.arrayAt, hcell]
  rfl

theorem rowFrame_eq {times : List (Option Instant)} {labels : List Label} {row : Nat}
    {c : DataColumn} (h : row < c.cells.length) :
    rowFrame times labels row c = lift (Result.rowFrame times labels row c) := by
  rw [rowFrame, arrayAt_of_lt h]
  refine lift_bind fun numbers _ => ?_
  dsimp only
  split <;> rfl

theorem rowFrames_eq {timestamps : DataColumn} {arrays scalars : List DataColumn} {row : Nat}
    (htimes : row < timestamps.cells.length) (harrays : ∀ c ∈ arrays, row < c.cells.length)
    (hscalars : ∀ c ∈ scalars, row < c.cells.length) :
    rowFrames timestamps arrays scalars row =
      lift (Result.rowFrames timestamps arrays scalars row) := by
  rw [rowFrames, arrayAt_of_lt htimes]
  refine lift_bind fun times _ => ?_
  rw [mapM_labelAt hscalars, lift_mapM]
  exact mapM_congr fun c hc => rowFrame_eq (harrays c hc)

theorem arraySeries_eq (heven : t.IsEven) : arraySeries t = lift (Result.arraySeries t) := by
  unfold arraySeries Result.arraySeries
  cases hcolumn : t.column? timestampName with
  | none => rfl
  | some timestamps =>
    have htimestamps : timestamps ∈ t.columns := List.mem_of_find?_eq_some hcolumn
    have hrows : ∀ row ∈ List.range t.rowCount,
        rowFrames timestamps (arrayColumns t) (scalarColumns t) row =
          lift (Result.rowFrames timestamps (arrayColumns t) (scalarColumns t) row) := by
      intro row hrow
      have hin : ∀ c ∈ t.columns, row < c.cells.length :=
        fun c hc => (heven c hc).symm ▸ List.mem_range.mp hrow
      exact rowFrames_eq (hin _ htimestamps) (fun c hc => hin c (List.mem_of_mem_filter hc))
        fun c hc => hin c (List.mem_of_mem_filter hc)
    dsimp only
    split
    · rfl
    · dsimp only [bind, Except.bind]
      rw [mapM_congr hrows, ← lift_mapM]
      exact lift_bind fun rows _ => rfl

/-- Shaping by positions gives what shaping gives; no position is out of range. -/
theorem shapeTable_eq (format : ResultFormat) (t : DataTable) :
    shapeTable format t = lift (Result.shapeTable format t) := by
  refine lift_bind fun u hu => ?_
  have heven := checkLengths_eq_ok_iff.mp hu
  cases format with
  | table => rfl
  | timeSeries => exact timeSeries_eq heven
  | arraySeries => exact arraySeries_eq heven

end Same

end Kusto.Result.Indexed

namespace Kusto.Result

variable {t : DataTable} {f : Frame} {frames : List Frame}

/-! ## Rectangular frames -/

/-- All fields have the same number of values. -/
def Frame.IsRectangular (f : Frame) : Prop :=
  ∀ a ∈ f.fields, ∀ b ∈ f.fields, a.values.length = b.values.length

theorem isRectangular_of_length {n : Nat} (h : ∀ a ∈ f.fields, a.values.length = n) :
    f.IsRectangular :=
  fun a ha b hb => (h a ha).trans (h b hb).symm

theorem isRectangular_seriesFrame {timeName column : String} {times : List (Option Instant)}
    {numbers : List (Option Binary64)} {labels : List Label} (h : numbers.length = times.length) :
    (seriesFrame timeName times column numbers labels).IsRectangular := by
  refine isRectangular_of_length (n := times.length) fun a ha => ?_
  rcases List.mem_pair.mp ha with rfl | rfl
  · rfl
  · exact h

theorem length_columnValues {c : DataColumn} {values : Values} (h : columnValues c = .ok values) :
    values.length = c.cells.length := by
  unfold columnValues at h
  split at h
  · obtain ⟨times, hread, rfl⟩ := map_eq_ok_iff.mp h
    obtain ⟨-, rfl⟩ := readTimes_eq_ok_iff.mp hread
    exact List.length_map _
  · obtain ⟨numbers, hread, rfl⟩ := map_eq_ok_iff.mp h
    obtain ⟨-, rfl⟩ := readNumbers_eq_ok_iff.mp hread
    exact List.length_map _
  · obtain rfl := Except.ok.inj h
    exact List.length_map _
  · obtain rfl := Except.ok.inj h
    exact List.length_map _

theorem isRectangular_tableFrame (heven : t.IsEven) (h : tableFrame t = .ok f) :
    f.IsRectangular := by
  obtain ⟨fields, hfields, h⟩ := exists_of_bind_ok h
  obtain rfl := Except.ok.inj h
  refine isRectangular_of_length (n := t.rowCount) fun a ha => ?_
  obtain ⟨c, hc, hfield⟩ := mem_of_mapM_ok hfields ha
  obtain ⟨values, hvalues, hfield⟩ := exists_of_bind_ok hfield
  obtain rfl := Except.ok.inj hfield
  exact (length_columnValues hvalues).trans (heven c hc)

theorem isRectangular_timeSeries (h : shapeTable .timeSeries t = .ok frames) :
    ∀ f ∈ frames, f.IsRectangular := by
  obtain ⟨time, groups, hsplits⟩ := timeSeries_splitsRows t frames h
  intro f hf
  rw [hsplits.series] at hf
  obtain ⟨g, -, hf⟩ := List.mem_flatMap.mp hf
  obtain ⟨c, -, rfl⟩ := List.mem_map.mp hf
  exact isRectangular_seriesFrame (by simp)

theorem isRectangular_arraySeries (h : arraySeries t = .ok frames) :
    ∀ f ∈ frames, f.IsRectangular := by
  obtain ⟨timestamps, -, -, hfits, rfl⟩ := arraySeriesWith_eq_ok_iff.mp h
  intro f hf
  obtain ⟨row, hrow, hf⟩ := List.mem_flatMap.mp hf
  obtain ⟨c, hc, rfl⟩ := List.mem_map.mp hf
  have hlength := (hfits row (List.mem_range.mp hrow)).length c hc
  exact isRectangular_seriesFrame (by simpa using hlength)

theorem isRectangular_of_shapeTable {format : ResultFormat}
    (h : shapeTable format t = .ok frames) : ∀ f ∈ frames, f.IsRectangular := by
  obtain ⟨heven, hformat⟩ := shapeTable_eq_ok_iff.mp h
  cases format with
  | table =>
    obtain ⟨frame, hframe, hframes⟩ := exists_of_bind_ok hformat
    obtain rfl := Except.ok.inj hframes
    intro f hf
    rw [List.mem_singleton.mp hf]
    exact isRectangular_tableFrame heven hframe
  | timeSeries => exact isRectangular_timeSeries h
  | arraySeries => exact isRectangular_arraySeries hformat

/-- **Frames are rectangular, and no position is out of range.**  A table of any columns and cells
has a fault or frames whose fields are of one length.  Shaped by positions it has the same, so no
position of a row, a group or a column ever leaves its list. -/
theorem shapeTable_rectangular (format : ResultFormat) (t : DataTable) :
    ((∃ w, shapeTable format t = .error w) ∨
      ∃ frames, shapeTable format t = .ok frames ∧ ∀ f ∈ frames, f.IsRectangular) ∧
    Indexed.shapeTable format t = Indexed.lift (shapeTable format t) ∧
    Indexed.shapeTable format t ≠ .error .outOfRange := by
  have hsame := Indexed.shapeTable_eq format t
  refine ⟨?_, hsame, hsame ▸ Indexed.lift_ne_outOfRange _⟩
  cases hshape : shapeTable format t with
  | error w => exact .inl ⟨w, rfl⟩
  | ok frames => exact .inr ⟨frames, rfl, isRectangular_of_shapeTable hshape⟩

theorem shapeTable_rectangular_hosts : seriesFrame "Timestamp" [some newYear] "Load" [none]
      [⟨"Host", ""⟩] ∈ hostFrames ∧
    (∃ frames, shapeTable .timeSeries hostTable = .ok frames ∧ ∀ f ∈ frames, f.IsRectangular) ∧
    Indexed.shapeTable .timeSeries hostTable = .ok hostFrames := by
  have hshape : shapeTable .timeSeries hostTable = .ok hostFrames := by decide +kernel
  obtain ⟨hframes, hsame, -⟩ := shapeTable_rectangular .timeSeries hostTable
  refine ⟨by decide +kernel, ?_, ?_⟩
  · rcases hframes with ⟨w, hfault⟩ | hframes
    · exact absurd (hfault.symm.trans hshape) (by simp)
    · exact hframes
  · rw [hsame, hshape]
    rfl

/-- Without the check of lengths, a row would be looked for in a column that is too short. -/
example : Indexed.timeSeries
    ⟨"", [⟨"Timestamp", "datetime", [.null, .null]⟩, ⟨"Count", "long", [.null]⟩]⟩ =
      .error .outOfRange := by
  decide +kernel

end Kusto.Result
