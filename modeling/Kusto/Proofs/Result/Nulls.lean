import Kusto.Proofs.Result.Reading
import Mathlib.Data.List.Forall2

/-!
# Nulls of a table — which cells are lost

The frame of a table has a field for each column and a value for each row.  A value is null where
the cell is, and a time or a number that cannot be read is a fault of the table.  A cell in a column
of truth values that is no truth value is neither: it becomes a null.  So no data are lost exactly
if there are no such cells.
-/

namespace Kusto.Result

-- The type of a column is compared, never computed from its declared text.
attribute [local irreducible] ValueType.ofColumnType

/-! ## Fields that show columns -/

/-- For each value, whether it is null. -/
def Values.nulls : Values → List Bool
  | times vs => vs.map Option.isNone
  | numbers vs => vs.map Option.isNone
  | booleans vs => vs.map Option.isNone
  | texts vs => vs.map Option.isNone

/-- The cell can be read as a value of the type; every cell has a text. -/
def isValue : ValueType → Json → Bool
  | .dateTime, cell => (cellTime? cell).isSome
  | .number, cell => (cellNumber? cell).isSome
  | .boolean, cell => cell.bool?.isSome
  | _, _ => true

/-- The cell is null or a value of the type. -/
def Fits (type : ValueType) (cell : Json) : Prop := cell = .null ∨ isValue type cell = true

/-- The field has the name of the column and a value for each of `rows` rows, which is null
exactly for the cells in `lost`. -/
structure Shows (lost : DataColumn → Json → Prop) (rows : Nat) (c : DataColumn) (x : Field) :
    Prop where
  name : x.name = c.name
  length : x.values.length = rows
  nulls : ∀ (row : Nat) (cell : Json), c.cells[row]? = some cell →
    (x.values.nulls[row]? = some true ↔ lost c cell)

/-- As a table, only null is shown as null: the frame shows the columns so, and a cell that does
not fit the type of its column is a fault. -/
structure KeepsData (t : DataTable) : Prop where
  shown : ∀ frames, shapeTable .table t = .ok frames → ∃ fields notices,
    frames = [⟨t.name, fields, notices⟩] ∧
      List.Forall₂ (Shows (fun _ cell => cell = .null) t.rowCount) t.columns fields
  faults : (∃ c ∈ t.columns, ∃ cell ∈ c.cells, ¬ Fits c.valueType cell) →
    ∃ w, shapeTable .table t = .error w

/-! ## Columns -/

section Cells

variable {α : Type} {read : Json → Option α}

theorem isNone_read_iff (hnull : read .null = none) {cell : Json} :
    (read cell).isNone = true ↔ cell = .null ∨ ¬ IsReadable read cell := by
  unfold IsReadable
  by_cases hcell : cell = .null
  · simp [hcell, hnull]
  · simp [hcell]

theorem isNone_cellText_iff {cell : Json} : (cellText? cell).isNone = true ↔ cell = .null := by
  cases cell <;> simp [cellText?]

/-- Cells that are read one by one have values if each of them is null or can be read. -/
theorem map_readCells_eq_ok_iff (hnull : read .null = none) {fault : Nat → Json → Fault}
    {row : Nat} {cells : List Json} {values : Values} {wrap : List (Option α) → Values} :
    (readCells read fault row cells).map wrap = .ok values ↔
      (∀ cell ∈ cells, IsReadable read cell) ∧ values = wrap (cells.map read) := by
  rw [map_eq_ok_iff]
  constructor
  · rintro ⟨vs, hvs, rfl⟩
    obtain ⟨hall, rfl⟩ := (readCells_eq_ok_iff hnull).mp hvs
    exact ⟨hall, rfl⟩
  · rintro ⟨hall, rfl⟩
    exact ⟨_, (readCells_eq_ok_iff hnull).mpr ⟨hall, rfl⟩, rfl⟩

theorem getElem_isNone_map {cells : List Json} {row : Nat} {cell : Json}
    (h : cells[row]? = some cell) (read : Json → Option α) :
    ((cells.map read).map Option.isNone)[row]? = some true ↔ (read cell).isNone = true := by
  rw [List.getElem?_map, List.getElem?_map, h]
  exact Option.some_inj

end Cells

section Columns

variable {c : DataColumn} {values : Values}

/-- The values of a column: what its cells are read as, or their texts. -/
def valuesOf (c : DataColumn) : Values :=
  match c.valueType with
  | .dateTime => .times (c.cells.map cellTime?)
  | .number => .numbers (c.cells.map cellNumber?)
  | .boolean => .booleans (c.cells.map Json.bool?)
  | _ => .texts (c.cells.map cellText?)

/-- A column has values if all its cells fit, and a column of truth values in any case. -/
theorem columnValues_eq_ok_iff : columnValues c = .ok values ↔
    (c.valueType ≠ .boolean → ∀ cell ∈ c.cells, Fits c.valueType cell) ∧ values = valuesOf c := by
  unfold columnValues valuesOf
  cases c.valueType with
  | dateTime => exact (map_readCells_eq_ok_iff rfl).trans (by simp [Fits, isValue, IsReadable])
  | number => exact (map_readCells_eq_ok_iff rfl).trans (by simp [Fits, isValue, IsReadable])
  | _ =>
    rw [Except.ok.injEq, eq_comm]
    simp [Fits, isValue]

theorem length_valuesOf (c : DataColumn) : (valuesOf c).length = c.cells.length := by
  unfold valuesOf
  split <;> exact List.length_map _

/-- A value is null where the cell is null or does not fit. -/
theorem nulls_valuesOf {row : Nat} {cell : Json} (h : c.cells[row]? = some cell) :
    (valuesOf c).nulls[row]? = some true ↔ cell = .null ∨ ¬ Fits c.valueType cell := by
  unfold valuesOf
  cases c.valueType with
  | dateTime => exact (getElem_isNone_map h cellTime?).trans (isNone_read_iff rfl)
  | number => exact (getElem_isNone_map h cellNumber?).trans (isNone_read_iff rfl)
  | boolean => exact (getElem_isNone_map h Json.bool?).trans (isNone_read_iff rfl)
  | _ =>
    refine ((getElem_isNone_map h cellText?).trans isNone_cellText_iff).trans ?_
    simp [Fits, isValue]

/-- The field of a column. -/
def fieldOf (c : DataColumn) : Field := { name := c.name, values := valuesOf c }

theorem values_fieldOf (c : DataColumn) : (fieldOf c).values = valuesOf c := rfl

theorem columnField_eq_ok_iff {x : Field} : columnField c = .ok x ↔
    (c.valueType ≠ .boolean → ∀ cell ∈ c.cells, Fits c.valueType cell) ∧ x = fieldOf c := by
  constructor
  · intro h
    obtain ⟨values, hvalues, h⟩ := exists_of_bind_ok h
    obtain ⟨hall, hvalues⟩ := columnValues_eq_ok_iff.mp hvalues
    rw [fieldOf, ← hvalues]
    exact ⟨hall, (Except.ok.inj h).symm⟩
  · rintro ⟨hall, rfl⟩
    exact bind_eq_ok_iff.mpr ⟨_, columnValues_eq_ok_iff.mpr ⟨hall, rfl⟩, rfl⟩

end Columns

/-! ## Tables -/

section Tables

variable {t : DataTable} {frames : List Frame}

/-- All cells fit, those in columns of truth values apart. -/
def FitsButTruth (t : DataTable) : Prop :=
  ∀ c ∈ t.columns, c.valueType ≠ .boolean → ∀ cell ∈ c.cells, Fits c.valueType cell

/-- The cells in columns of truth values fit. -/
def TruthFits (t : DataTable) : Prop :=
  ∀ c ∈ t.columns, c.valueType = .boolean → ∀ cell ∈ c.cells, Fits .boolean cell

theorem shapeTable_table_eq_ok_iff : shapeTable .table t = .ok frames ↔
    (t.IsEven ∧ FitsButTruth t) ∧
      frames = [⟨t.name, t.columns.map fieldOf, tableNotices (t.columns.map fieldOf)⟩] := by
  have hfields : ∀ fields, t.columns.mapM columnField = .ok fields ↔
      FitsButTruth t ∧ fields = t.columns.map fieldOf :=
    fun fields => mapM_eq_ok_iff fun c _ x => columnField_eq_ok_iff
  rw [shapeTable_eq_ok_iff]
  constructor
  · rintro ⟨heven, h⟩
    obtain ⟨f, hf, h⟩ := exists_of_bind_ok h
    obtain ⟨fields, hall, hf⟩ := exists_of_bind_ok hf
    obtain ⟨hfits, rfl⟩ := (hfields _).mp hall
    obtain rfl := Except.ok.inj hf
    exact ⟨⟨heven, hfits⟩, (Except.ok.inj h).symm⟩
  · rintro ⟨⟨heven, hfits⟩, rfl⟩
    refine ⟨heven, bind_eq_ok_iff.mpr ⟨_, ?_, rfl⟩⟩
    exact bind_eq_ok_iff.mpr ⟨_, (hfields _).mpr ⟨hfits, rfl⟩, rfl⟩

theorem exists_error_iff :
    (∃ w, shapeTable .table t = .error w) ↔ ¬ (t.IsEven ∧ FitsButTruth t) := by
  constructor
  · rintro ⟨w, hw⟩ hfits
    have hok := shapeTable_table_eq_ok_iff.mpr ⟨hfits, rfl⟩
    rw [hw] at hok
    exact absurd hok (by simp)
  · intro hnot
    cases h : shapeTable .table t with
    | error w => exact ⟨w, rfl⟩
    | ok frames => exact absurd (shapeTable_table_eq_ok_iff.mp h).1 hnot

theorem forall₂_shows {lost : DataColumn → Json → Prop} (heven : t.IsEven)
    (hlost : ∀ c ∈ t.columns, ∀ cell ∈ c.cells,
      lost c cell ↔ cell = .null ∨ ¬ Fits c.valueType cell) :
    List.Forall₂ (Shows lost t.rowCount) t.columns (t.columns.map fieldOf) := by
  rw [List.forall₂_map_right_iff, List.forall₂_same]
  intro c hc
  constructor
  case name => rfl
  case length => rw [values_fieldOf, length_valuesOf, heven c hc]
  case nulls =>
    intro row cell hcell
    rw [values_fieldOf, nulls_valuesOf hcell, hlost c hc cell (List.mem_of_getElem? hcell)]

/-- **Where a table turns data into nulls.**  Shaping as a table fails exactly if its columns are
not of one length or a cell in another column than one of truth values does not fit.  Otherwise the
frame shows every column, with null for null and for each cell that does not fit.  So where there
is a frame, data are kept exactly if every cell in a column of truth values is one or null. -/
theorem shapeTable_keepsData_iff (t : DataTable) :
    ((∃ w, shapeTable .table t = .error w) ↔ ¬ (t.IsEven ∧ FitsButTruth t)) ∧
    (∀ frames, shapeTable .table t = .ok frames → ∃ fields notices,
      frames = [⟨t.name, fields, notices⟩] ∧
        List.Forall₂ (Shows (fun c cell => cell = .null ∨ ¬ Fits c.valueType cell) t.rowCount)
          t.columns fields) ∧
    (KeepsData t ↔ (∃ w, shapeTable .table t = .error w) ∨ TruthFits t) := by
  refine ⟨exists_error_iff, fun frames h => ?_, fun hkeeps => ?_, fun hor => ⟨?_, ?_⟩⟩
  · obtain ⟨⟨heven, -⟩, rfl⟩ := shapeTable_table_eq_ok_iff.mp h
    exact ⟨_, _, rfl, forall₂_shows heven fun c _ cell _ => Iff.rfl⟩
  · -- a cell that does not fit is kept from becoming null only by a failure
    refine Classical.or_iff_not_imp_right.mpr fun hnot => ?_
    unfold TruthFits at hnot
    push Not at hnot
    obtain ⟨c, hc, htype, cell, hcell, hunfit⟩ := hnot
    exact hkeeps.faults ⟨c, hc, cell, hcell, htype ▸ hunfit⟩
  · intro frames h
    obtain ⟨⟨heven, hfits⟩, rfl⟩ := shapeTable_table_eq_ok_iff.mp h
    have htruth : TruthFits t := by
      refine hor.resolve_left fun herror => ?_
      exact exists_error_iff.mp herror ⟨heven, hfits⟩
    refine ⟨_, _, rfl, forall₂_shows heven fun c hc cell hcell => ?_⟩
    have hfit : Fits c.valueType cell := by
      by_cases htype : c.valueType = .boolean
      · exact htype ▸ htruth c hc htype cell hcell
      · exact hfits c hc htype cell hcell
    simp [hfit]
  · rintro ⟨c, hc, cell, hcell, hunfit⟩
    rcases hor with herror | htruth
    · exact herror
    · refine exists_error_iff.mpr fun hfits => hunfit ?_
      by_cases htype : c.valueType = .boolean
      · exact htype ▸ htruth c hc htype cell hcell
      · exact hfits.2 c hc htype cell hcell

end Tables

/-- A column of truth values, one of them written as a number. -/
def truthColumn : DataColumn := ⟨"Ok", "bool", [.bool true, .ofInt 1]⟩

/-- The number is shown as null, with no fault. -/
theorem not_keepsData_truthNumber :
    shapeTable .table ⟨"", [truthColumn]⟩ =
        .ok [⟨"", [⟨"Ok", [], .booleans [some true, none]⟩], []⟩] ∧
      ¬ KeepsData ⟨"", [truthColumn]⟩ := by
  have hshape : shapeTable .table ⟨"", [truthColumn]⟩ =
      .ok [⟨"", [⟨"Ok", [], .booleans [some true, none]⟩], []⟩] := by decide +kernel
  refine ⟨hshape, fun hkeeps => ?_⟩
  have htype : truthColumn.valueType = .boolean := by decide +kernel
  have hunfit : ¬ Fits truthColumn.valueType (.ofInt 1) := by
    rw [htype]
    rintro (hnull | hvalue)
    · exact absurd hnull (by decide)
    · exact absurd hvalue (by decide)
  obtain ⟨w, hw⟩ := hkeeps.faults ⟨truthColumn, by simp, .ofInt 1, by simp [truthColumn], hunfit⟩
  rw [hshape] at hw
  exact absurd hw (by simp)

end Kusto.Result
