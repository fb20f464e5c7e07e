import Kusto.Proofs.Result.Reading
import Mathlib.Data.List.Forall2

/-!
# Delivery of arrays — arrays and their texts

A dynamic cell may hold an array or a text that is read as one.  Times and numbers are the same
either way, and so is every fault.  The labels are not: a dynamic column without an array gives a
label, so a column whose arrays have all come as texts labels the series too.  The frames are the
same if no column loses all its arrays, and only then.
-/

namespace Kusto.Result

/-! ## Delivered cells, columns and tables -/

/-- A cell comes as it is, or an array as a text. A text counts only if it is read as this very
array: one with `1.0` where the array has `1` delivers another array. -/
inductive Delivers : Json → Json → Prop
  | same (cell : Json) : Delivers cell cell
  | text {items : List Json} {s : String} (h : Json.read? s = some (.arr items)) :
    Delivers (.arr items) (.str s)

/-- A column comes with its cells; only dynamic columns have texts for arrays. -/
structure DeliversColumn (c c' : DataColumn) : Prop where
  name : c'.name = c.name
  type : c'.type = c.type
  cells : List.Forall₂ Delivers c.cells c'.cells
  fixed : c.isDynamic = false → c'.cells = c.cells

/-- A table comes with its columns. -/
structure DeliversTable (t t' : DataTable) : Prop where
  name : t'.name = t.name
  columns : List.Forall₂ DeliversColumn t.columns t'.columns

theorem cellArray_of_delivers {v v' : Json} (h : Delivers v v') : cellArray? v' = cellArray? v := by
  cases h with
  | same => rfl
  | text h =>
    show (Json.read? _).bind Json.items? = _
    rw [h]
    rfl

section Columns

variable {c c' : DataColumn}

theorem isDynamic_of_delivers (h : DeliversColumn c c') : c'.isDynamic = c.isDynamic := by
  rw [DataColumn.isDynamic, h.type, DataColumn.isDynamic]

theorem map_cellArray_of_delivers (h : DeliversColumn c c') :
    c'.cells.map cellArray? = c.cells.map cellArray? := by
  have hcells := h.cells
  generalize c.cells = cells, c'.cells = cells' at hcells
  induction hcells with
  | nil => rfl
  | cons hcell _ ih => rw [List.map_cons, List.map_cons, cellArray_of_delivers hcell, ih]

theorem arrayAt_eq (c : DataColumn) (row : Nat) :
    arrayAt c row = ((c.cells.map cellArray?)[row]?.join).getD [] := by
  rw [arrayAt, List.getElem?_map]
  cases c.cells[row]? <;> rfl

theorem arrayAt_of_delivers (h : DeliversColumn c c') (row : Nat) :
    arrayAt c' row = arrayAt c row := by
  rw [arrayAt_eq, arrayAt_eq, map_cellArray_of_delivers h]

theorem holdsNumbers_of_delivers (h : DeliversColumn c c') :
    holdsNumbers c' = holdsNumbers c := by
  have hfirst : ∀ c : DataColumn,
      c.cells.findSome? cellArray? = (c.cells.map cellArray?).findSome? id := by
    intro c
    rw [List.findSome?_map]
    rfl
  unfold holdsNumbers
  rw [hfirst, hfirst, map_cellArray_of_delivers h]

theorem eq_of_cells (h : DeliversColumn c c') (hcells : c'.cells = c.cells) : c' = c := by
  obtain ⟨name, type, cells⟩ := c
  obtain ⟨name', type', cells'⟩ := c'
  obtain rfl := h.name
  obtain rfl := h.type
  obtain rfl := hcells
  rfl

/-- A column without arrays comes as it is. -/
theorem eq_of_holdsNoArray (h : DeliversColumn c c') (hnone : holdsNoArray c = true) : c' = c := by
  refine eq_of_cells h ?_
  have hcells := h.cells
  unfold holdsNoArray at hnone
  generalize c.cells = cells, c'.cells = cells' at hcells hnone
  induction hcells with
  | nil => rfl
  | cons hcell _ ih =>
    rw [List.all_cons, Bool.and_eq_true] at hnone
    rw [ih hnone.2]
    cases hcell with
    | same => rfl
    | text => exact absurd hnone.1 (by simp [Json.items?])

/-- The column gives labels. -/
def isScalar (c : DataColumn) : Bool :=
  c.name ≠ timestampName && (!c.isDynamic || holdsNoArray c)

/-- The column of times, or one that has an array left if it had any. -/
def KeepsArray (c c' : DataColumn) : Prop :=
  c.name = timestampName ∨ (holdsNoArray c' = true → holdsNoArray c = true)

theorem isScalar_iff : isScalar c = true ↔
    c.name ≠ timestampName ∧ (c.isDynamic = false ∨ holdsNoArray c = true) := by
  simp [isScalar]

/-- A column of labels comes as it is. -/
theorem eq_of_isScalar (h : DeliversColumn c c') (hscalar : isScalar c = true) : c' = c := by
  rcases (isScalar_iff.mp hscalar).2 with hdyn | hnone
  · exact eq_of_cells h (h.fixed hdyn)
  · exact eq_of_holdsNoArray h hnone

/-- A column that keeps an array gives labels only if it did before. -/
theorem keepsArray_iff (h : DeliversColumn c c') :
    KeepsArray c c' ↔ (isScalar c' = true → isScalar c = true) := by
  constructor
  · intro hkeeps hscalar
    rw [isScalar_iff, h.name, isDynamic_of_delivers h] at hscalar
    obtain ⟨hname, hdyn | hnone⟩ := hscalar
    · exact isScalar_iff.mpr ⟨hname, .inl hdyn⟩
    · exact isScalar_iff.mpr ⟨hname, .inr (hkeeps.resolve_left hname hnone)⟩
  · intro hback
    by_cases hname : c.name = timestampName
    · exact .inl hname
    · refine .inr fun hnone => ?_
      have hname' : c'.name ≠ timestampName := h.name ▸ hname
      have hscalar := hback (isScalar_iff.mpr ⟨hname', .inr hnone⟩)
      rwa [← eq_of_isScalar h hscalar]

end Columns

/-! ## Series but for their labels -/

section Tables

variable {t t' : DataTable}

theorem rowCount_of_delivers (h : DeliversTable t t') : t'.rowCount = t.rowCount := by
  have hcolumns := h.columns
  unfold DataTable.rowCount
  generalize t.columns = cs, t'.columns = cs' at hcolumns
  cases hcolumns with
  | nil => rfl
  | cons hc _ => exact hc.cells.length_eq.symm

/-- What is looked for among the columns comes for what is looked for. -/
theorem find_of_delivers {p : DataColumn → Bool} {cs cs' : List DataColumn}
    (hp : ∀ c c', DeliversColumn c c' → p c' = p c) (h : List.Forall₂ DeliversColumn cs cs') :
    Option.Rel DeliversColumn (cs.find? p) (cs'.find? p) := by
  induction h with
  | nil => exact .none
  | cons hc _ ih =>
    rw [List.find?_cons, List.find?_cons, hp _ _ hc]
    split
    · exact .some hc
    · exact ih

theorem checkLengths_of_delivers (h : DeliversTable t t') : checkLengths t' = checkLengths t := by
  have hlength : ∀ c c', DeliversColumn c c' → c'.cells.length = c.cells.length :=
    fun c c' hc => hc.cells.length_eq.symm
  have hfind := find_of_delivers (p := fun c => c.cells.length ≠ t.rowCount)
    (fun c c' hc => by simp only [hlength c c' hc]) h.columns
  unfold checkLengths
  rw [rowCount_of_delivers h]
  generalize t.columns.find? _ = found, t'.columns.find? _ = found' at hfind
  cases hfind with
  | none => rfl
  | some hc =>
    dsimp only
    rw [hc.name, hlength _ _ hc]

theorem arrayColumns_of_delivers (h : DeliversTable t t') :
    List.Forall₂ DeliversColumn (arrayColumns t) (arrayColumns t') := by
  refine List.rel_filter (fun c c' hc => ?_) h.columns
  dsimp only
  rw [hc.name, isDynamic_of_delivers hc, holdsNumbers_of_delivers hc]

theorem mapM_of_forall₂ {α β γ ε : Type} {R : α → β → Prop} {f : α → Except ε γ}
    {g : β → Except ε γ} {xs : List α} {ys : List β} (h : List.Forall₂ R xs ys)
    (hfg : ∀ x y, R x y → g y = f x) : ys.mapM g = xs.mapM f := by
  induction h with
  | nil => rfl
  | cons hxy _ ih => rw [List.mapM_cons, List.mapM_cons, hfg _ _ hxy, ih]

theorem rowFrame_of_delivers {c c' : DataColumn} (h : DeliversColumn c c')
    (times : List (Option Time.Instant)) (labels : List Label) (row : Nat) :
    rowFrame times labels row c' = rowFrame times labels row c := by
  unfold rowFrame
  rw [h.name, arrayAt_of_delivers h]

theorem rowFrames_of_delivers {timestamps timestamps' : DataColumn}
    {arrays arrays' : List DataColumn} (htimes : DeliversColumn timestamps timestamps')
    (harrays : List.Forall₂ DeliversColumn arrays arrays') (scalars : List DataColumn)
    (row : Nat) : rowFrames timestamps' arrays' scalars row =
      rowFrames timestamps arrays scalars row := by
  unfold rowFrames
  rw [htimes.name, arrayAt_of_delivers htimes]
  refine congrArg (_ >>= ·) (funext fun times => ?_)
  exact mapM_of_forall₂ harrays fun c c' hc => rowFrame_of_delivers hc times _ row

/-- With the same labels the series of a table are those of the table it comes for. -/
theorem arraySeriesWith_of_delivers (h : DeliversTable t t') (scalars : List DataColumn) :
    arraySeriesWith scalars t' = arraySeriesWith scalars t := by
  have harrays := arrayColumns_of_delivers h
  have hempty : (arrayColumns t').isEmpty = (arrayColumns t).isEmpty := by
    rw [Bool.eq_iff_iff, List.isEmpty_iff, List.isEmpty_iff]
    generalize arrayColumns t = cs, arrayColumns t' = cs' at harrays
    cases harrays <;> simp
  have hcolumn : Option.Rel DeliversColumn (t.column? timestampName) (t'.column? timestampName) :=
    find_of_delivers (fun c c' hc => by rw [hc.name]) h.columns
  unfold arraySeriesWith
  rw [rowCount_of_delivers h]
  generalize t.column? _ = found, t'.column? _ = found' at hcolumn
  cases hcolumn with
  | none => rfl
  | some hc =>
    dsimp only
    rw [hempty, mapM_congr fun row _ => rowFrames_of_delivers hc harrays scalars row]

end Tables

/-! ## Labels -/

/-- What a frame holds: its fields without their labels, and its notices. -/
def Frame.content (f : Frame) : List (String × Values) × List Notice :=
  (f.fields.map fun x => (x.name, x.values), f.notices)

section Labels

variable {t : DataTable}

theorem content_rowFrame (times : List (Option Time.Instant)) (labels labels' : List Label)
    (row : Nat) (c : DataColumn) :
    (rowFrame times labels row c).map Frame.content =
      (rowFrame times labels' row c).map Frame.content := by
  unfold rowFrame
  cases readNumbers c.name (arrayAt c row) with
  | error w => rfl
  | ok numbers =>
    dsimp only [bind, Except.bind]
    split <;> rfl

theorem content_rowFrames (timestamps : DataColumn) (arrays scalars scalars' : List DataColumn)
    (row : Nat) :
    (rowFrames timestamps arrays scalars row).map (List.map Frame.content) =
      (rowFrames timestamps arrays scalars' row).map (List.map Frame.content) := by
  unfold rowFrames
  cases readTimes timestamps.name (arrayAt timestamps row) with
  | error w => rfl
  | ok times =>
    dsimp only [bind, Except.bind]
    rw [map_mapM, map_mapM]
    exact mapM_congr fun c _ => content_rowFrame times _ _ row c

/-- The labels change neither the content of the frames nor a fault. -/
theorem content_arraySeriesWith (scalars scalars' : List DataColumn) (t : DataTable) :
    (arraySeriesWith scalars t).map (List.map Frame.content) =
      (arraySeriesWith scalars' t).map (List.map Frame.content) := by
  -- the frames come row by row, and their content is taken of all of them together
  have hflatten : ∀ x : Except Fault (List (List Frame)),
      (do return (← x).flatten).map (List.map Frame.content) =
        (x.map (List.map (List.map Frame.content))).map List.flatten := by
    intro x
    cases x with
    | error w => rfl
    | ok rows => exact congrArg Except.ok List.map_flatten
  unfold arraySeriesWith
  cases t.column? timestampName with
  | none => rfl
  | some timestamps =>
    dsimp only
    split
    · rfl
    · refine (hflatten _).trans (Eq.trans ?_ (hflatten _).symm)
      rw [map_mapM, map_mapM]
      exact congrArg _ (mapM_congr fun row _ => content_rowFrames timestamps _ _ _ row)

end Labels

/-! ## Columns of labels -/

section Filter

variable {α : Type} {R : α → α → Prop} {p : α → Bool} {xs ys : List α}

theorem length_filter_le_of_forall₂ (h : List.Forall₂ R xs ys)
    (hkeep : ∀ x y, R x y → p x = true → p y = true) :
    (xs.filter p).length ≤ (ys.filter p).length := by
  induction h with
  | nil => exact Nat.le_refl _
  | @cons x y xs ys hxy _ ih =>
    rw [List.filter_cons, List.filter_cons]
    by_cases hx : p x = true
    · rw [if_pos hx, if_pos (hkeep x y hxy hx)]
      exact Nat.succ_le_succ ih
    · rw [if_neg hx]
      split
      · exact Nat.le_succ_of_le ih
      · exact ih

/-- If a filter keeps as many values of one list as of the other, it keeps them at the same
places. -/
theorem forall₂_of_length_filter (h : List.Forall₂ R xs ys)
    (hkeep : ∀ x y, R x y → p x = true → p y = true)
    (hlength : (ys.filter p).length = (xs.filter p).length) :
    List.Forall₂ (fun x y => p y = true → p x = true) xs ys := by
  induction h with
  | nil => exact .nil
  | @cons x y xs ys hxy hrest ih =>
    have hle := length_filter_le_of_forall₂ hrest hkeep
    rw [List.filter_cons, List.filter_cons] at hlength
    by_cases hx : p x = true
    · rw [if_pos hx, if_pos (hkeep x y hxy hx)] at hlength
      exact .cons (fun _ => hx) (ih (Nat.succ.inj hlength))
    · by_cases hy : p y = true
      · rw [if_neg hx, if_pos hy, List.length_cons] at hlength
        omega
      · rw [if_neg hx, if_neg hy] at hlength
        exact .cons (fun h => absurd h hy) (ih hlength)

theorem filter_eq_of_forall₂ (h : List.Forall₂ R xs ys)
    (hsame : ∀ x y, R x y → p x = true → y = x)
    (hback : List.Forall₂ (fun x y => p y = true → p x = true) xs ys) :
    ys.filter p = xs.filter p := by
  induction h with
  | nil => rfl
  | @cons x y xs ys hxy _ ih =>
    obtain ⟨hyx, hrest⟩ := List.forall₂_cons.mp hback
    rw [List.filter_cons, List.filter_cons, ih hrest]
    by_cases hx : p x = true
    · rw [hsame x y hxy hx]
    · rw [if_neg hx, if_neg fun hy => hx (hyx hy)]

end Filter

section Scalars

variable {t t' : DataTable}

theorem scalarColumns_of_keepsArray (h : DeliversTable t t')
    (hkeeps : List.Forall₂ KeepsArray t.columns t'.columns) :
    scalarColumns t' = scalarColumns t := by
  have hback := h.columns.mp (fun _ _ hc hkeep => (keepsArray_iff hc).mp hkeep) hkeeps
  exact filter_eq_of_forall₂ h.columns (fun _ _ => eq_of_isScalar) hback

theorem keepsArray_of_length (h : DeliversTable t t')
    (hlength : (scalarColumns t').length = (scalarColumns t).length) :
    List.Forall₂ KeepsArray t.columns t'.columns := by
  have hkeep : ∀ c c', DeliversColumn c c' → isScalar c = true → isScalar c' = true := by
    intro c c' hc hscalar
    rwa [eq_of_isScalar hc hscalar]
  have hback := forall₂_of_length_filter h.columns hkeep hlength
  exact h.columns.mp (fun _ _ hc hc' => (keepsArray_iff hc).mpr hc') hback

/-- Frames show how many columns give labels. -/
theorem length_of_seriesOfRows {timestamps : DataColumn} {arrays scalars scalars' : List DataColumn}
    (hrow : 0 < t.rowCount) (harrays : arrays ≠ [])
    (h : seriesOfRows t timestamps arrays scalars' = seriesOfRows t timestamps arrays scalars) :
    scalars'.length = scalars.length := by
  have hfirst : ∀ scalars, ∃ f fs, seriesOfRows t timestamps arrays scalars = f :: fs ∧
      f.fields.map (fun x => x.labels.length) = [0, scalars.length] := by
    intro scalars
    obtain ⟨n, hn⟩ := Nat.exists_eq_succ_of_ne_zero (Nat.ne_of_gt hrow)
    obtain ⟨c, cs, rfl⟩ := List.exists_cons_of_ne_nil harrays
    unfold seriesOfRows
    rw [hn, List.range_succ_eq_map, List.flatMap_cons, List.map_cons, List.cons_append]
    exact ⟨_, _, rfl, by simp [rowSeries, seriesFrame]⟩
  obtain ⟨f, fs, hframes, hlabels⟩ := hfirst scalars
  obtain ⟨f', fs', hframes', hlabels'⟩ := hfirst scalars'
  rw [hframes, hframes'] at h
  obtain rfl := (List.cons.inj h).1
  simpa using hlabels'.symm.trans hlabels

theorem shapeTable_of_delivers (h : DeliversTable t t') : shapeTable .arraySeries t' =
    checkLengths t >>= fun _ => arraySeriesWith (scalarColumns t') t := by
  rw [← checkLengths_of_delivers h, ← arraySeriesWith_of_delivers h]
  rfl

/-- However its arrays come, a table has frames with the same content, or the same fault. -/
theorem content_shapeTable_of_delivers (h : DeliversTable t t') :
    (shapeTable .arraySeries t').map (List.map Frame.content) =
      (shapeTable .arraySeries t).map (List.map Frame.content) := by
  rw [shapeTable_of_delivers h]
  show (checkLengths t >>= fun _ => arraySeriesWith (scalarColumns t') t).map _ =
    (checkLengths t >>= fun _ => arraySeriesWith (scalarColumns t) t).map _
  cases checkLengths t with
  | error w => rfl
  | ok u => exact content_arraySeriesWith _ _ t

/-- If its frames are the same, a column has an array left if it had any. -/
theorem keepsArray_of_shapeTable (h : DeliversTable t t') {frames : List Frame}
    (hframes : shapeTable .arraySeries t = .ok frames)
    (hsame : shapeTable .arraySeries t' = .ok frames) :
    List.Forall₂ KeepsArray t.columns t'.columns := by
  rw [shapeTable_of_delivers h] at hsame
  obtain ⟨u, -, hsame⟩ := bind_eq_ok_iff.mp hsame
  obtain ⟨heven, hseries⟩ := shapeTable_eq_ok_iff.mp hframes
  obtain ⟨timestamps, hcolumn, harrays, -, rfl⟩ := arraySeriesWith_eq_ok_iff.mp hseries
  obtain ⟨timestamps', hcolumn', -, -, heq⟩ := arraySeriesWith_eq_ok_iff.mp hsame
  obtain rfl := Option.some.inj (hcolumn.symm.trans hcolumn')
  have hrow := exists_row heven harrays
  exact keepsArray_of_length h (length_of_seriesOfRows hrow harrays heq.symm)

/-- **When the delivery of arrays does not show.**  However the arrays of the dynamic columns come,
as such or as texts that are read as them, the fields of the series without their labels, the
notices and any fault are the same.  The frames are the same, with names and labels, exactly if
there are none but a fault, or each dynamic column other than that of the times that had an array
has one left. -/
theorem arraySeries_delivered_iff (t t' : DataTable) (h : DeliversTable t t') :
    (shapeTable .arraySeries t').map (List.map Frame.content) =
      (shapeTable .arraySeries t).map (List.map Frame.content) ∧
    (shapeTable .arraySeries t' = shapeTable .arraySeries t ↔
      (∃ w, shapeTable .arraySeries t = .error w) ∨
        List.Forall₂ KeepsArray t.columns t'.columns) := by
  have hcontent := content_shapeTable_of_delivers h
  refine ⟨hcontent, fun hsame => ?_, ?_⟩
  · cases hframes : shapeTable .arraySeries t with
    | error w => exact .inl ⟨w, rfl⟩
    | ok frames => exact .inr (keepsArray_of_shapeTable h hframes (hsame.trans hframes))
  · rintro (⟨w, hw⟩ | hkeeps)
    · rw [hw] at hcontent ⊢
      exact map_eq_error_iff.mp hcontent
    · rw [shapeTable_of_delivers h, scalarColumns_of_keepsArray h hkeeps]
      rfl

end Scalars

/-- A table of counts over time. -/
def countTable (timestamps counts : List Json) : DataTable where
  columns := [⟨"Timestamp", "dynamic", timestamps⟩, ⟨"Count", "dynamic", counts⟩]

theorem delivers_countTable {timestamps timestamps' counts counts' : List Json}
    (htimes : List.Forall₂ Delivers timestamps timestamps')
    (hcounts : List.Forall₂ Delivers counts counts') :
    DeliversTable (countTable timestamps counts) (countTable timestamps' counts') := by
  have hcolumn : ∀ name cells cells', List.Forall₂ Delivers cells cells' →
      DeliversColumn ⟨name, "dynamic", cells⟩ ⟨name, "dynamic", cells'⟩ := by
    intro name cells cells' hcells
    have hdyn : isDynamicType "dynamic" = true := by decide
    exact ⟨rfl, rfl, hcells, fun hfixed => absurd (hdyn.symm.trans hfixed) (by decide)⟩
  exact ⟨rfl, .cons (hcolumn _ _ _ htimes) (.cons (hcolumn _ _ _ hcounts) .nil)⟩

/-- Two rows, with the times and the second counts as texts. -/
theorem arraySeries_delivered_counts :
    DeliversTable
        (countTable [.arr [.ofInt 0], .arr [.ofInt 0]] [.arr [.ofInt 1], .arr [.null]])
        (countTable [.str "[0]", .str "[0]"] [.arr [.ofInt 1], .str "[ null ]"]) ∧
      shapeTable .arraySeries
          (countTable [.str "[0]", .str "[0]"] [.arr [.ofInt 1], .str "[ null ]"]) =
        shapeTable .arraySeries
          (countTable [.arr [.ofInt 0], .arr [.ofInt 0]] [.arr [.ofInt 1], .arr [.null]]) := by
  have htext : Delivers (.arr [.ofInt 0]) (.str "[0]") := .text (by decide +kernel)
  have hnull : Delivers (.arr [.null]) (.str "[ null ]") := .text (by decide +kernel)
  have hdelivers := delivers_countTable (.cons htext (.cons htext .nil))
    (.cons (.same (.arr [.ofInt 1])) (.cons hnull .nil))
  refine ⟨hdelivers, (arraySeries_delivered_iff _ _ hdelivers).2.mpr (.inr ?_)⟩
  exact .cons (.inl rfl) (.cons (.inr (by decide)) .nil)

/-- The only counts come as a text, and become a label of their own series. -/
theorem not_delivered_countText :
    DeliversTable (countTable [.arr [.ofInt 0]] [.arr [.ofInt 1]])
        (countTable [.arr [.ofInt 0]] [.str "[1]"]) ∧
      shapeTable .arraySeries (countTable [.arr [.ofInt 0]] [.arr [.ofInt 1]]) =
        .ok [seriesFrame "Timestamp" [some ⟨0, 0⟩] "Count" [some (Number.Binary64.ofInt 1)] []] ∧
      shapeTable .arraySeries (countTable [.arr [.ofInt 0]] [.str "[1]"]) =
        .ok [seriesFrame "Timestamp" [some ⟨0, 0⟩] "Count" [some (Number.Binary64.ofInt 1)]
          [⟨"Count", "[1]"⟩]] ∧
      shapeTable .arraySeries (countTable [.arr [.ofInt 0]] [.str "[1]"]) ≠
        shapeTable .arraySeries (countTable [.arr [.ofInt 0]] [.arr [.ofInt 1]]) := by
  have htext : Delivers (.arr [.ofInt 1]) (.str "[1]") := .text (by decide +kernel)
  exact ⟨delivers_countTable (.cons (.same _) .nil) (.cons htext .nil), by decide +kernel,
    by decide +kernel, by decide +kernel⟩

end Kusto.Result
