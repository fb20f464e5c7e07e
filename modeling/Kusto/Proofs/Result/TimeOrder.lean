import Kusto.Proofs.Result.Reading
import Mathlib.Data.List.Chain

/-!
# Times in order — what the notice tells

Whether times go back is found by a scan that compares each known time with the known time next in
front of it.  That no time is earlier than the one before it is a transitive relation, so the scan
finds a step back exactly if some known time comes earlier than any known time in front of it.
From this, the notice of a frame is exact in every format.
-/

open Kusto.Number (Binary64)
open Kusto.Time (Instant)

namespace Kusto.Result

/-! ## The scan -/

/-- `a` is in an earlier second than `b`, or earlier in the same one. -/
def IsEarlier (a b : Instant) : Prop :=
  a.second < b.second ∨ a.second = b.second ∧ a.nano < b.nano

/-- `b` may stand behind `a`. -/
def InOrder (a b : Instant) : Prop := ¬ IsEarlier b a

/-- Some known time is earlier than a known time in front of it. -/
def GoesBack (times : List (Option Instant)) : Prop :=
  ∃ (i j : Nat) (a b : Instant),
    i < j ∧ times[i]? = some (some a) ∧ times[j]? = some (some b) ∧ IsEarlier b a

theorem before_iff {a b : Instant} : a.before b = true ↔ IsEarlier a b := by
  simp [Instant.before, IsEarlier]

instance : Trans InOrder InOrder InOrder where
  trans := by
    intro a b c hab hbc
    unfold InOrder IsEarlier at hab hbc ⊢
    omega

theorem ascending_iff_isChain {times : List Instant} :
    ascending times = true ↔ times.IsChain InOrder := by
  induction times with
  | nil => exact ⟨fun _ => .nil, fun _ => rfl⟩
  | cons a rest ih =>
    cases rest with
    | nil => exact ⟨fun _ => .singleton a, fun _ => rfl⟩
    | cons b rest =>
      rw [ascending, Bool.and_eq_true, Bool.not_eq_true', ← Bool.not_eq_true, before_iff, ih,
        List.isChain_cons_cons, InOrder]

/-- What the scan finds is the order of any two known times, however far apart. -/
theorem isNonDecreasing_iff {times : List (Option Instant)} :
    isNonDecreasing times = true ↔ ¬ GoesBack times := by
  rw [isNonDecreasing, ascending_iff_isChain, List.isChain_iff_pairwise, List.pairwise_filterMap,
    List.pairwise_iff_getElem]
  constructor
  · rintro h ⟨i, j, a, b, hij, ha, hb, hearlier⟩
    obtain ⟨hi, ha⟩ := List.getElem?_eq_some_iff.mp ha
    obtain ⟨hj, hb⟩ := List.getElem?_eq_some_iff.mp hb
    exact h i j hi hj hij a ha b hb hearlier
  · intro h i j hi hj hij a ha b hb hearlier
    refine h ⟨i, j, a, b, hij, ?_, ?_, hearlier⟩
    · exact List.getElem?_eq_some_iff.mpr ⟨hi, ha⟩
    · exact List.getElem?_eq_some_iff.mpr ⟨hj, hb⟩

theorem timeNotices_of_goesBack {times : List (Option Instant)} (h : GoesBack times)
    (name : String) : timeNotices name times = [.timeNotAscending name] := by
  rw [timeNotices, if_neg fun hsorted => isNonDecreasing_iff.mp hsorted h]

theorem timeNotices_of_not_goesBack {times : List (Option Instant)} (h : ¬ GoesBack times)
    (name : String) : timeNotices name times = [] := by
  rw [timeNotices, if_pos (isNonDecreasing_iff.mpr h)]

/-! ## Frames -/

/-- The fields of times. -/
def Frame.clocks (f : Frame) : List Field := f.fields.filter fun x => x.values.times?.isSome

/-- Some notice tells that times go back. -/
def Frame.TellsBack (f : Frame) : Prop := ∃ name, Notice.timeNotAscending name ∈ f.notices

/-- The notice is there exactly if the frame has one field of times and these go back.  Then it is
the only one, and names that field. -/
structure Frame.TellsOrder (f : Frame) : Prop where
  iff : f.TellsBack ↔ ∃ x times, f.clocks = [x] ∧ x.values = .times times ∧ GoesBack times
  once : f.TellsBack → ∃ x, f.clocks = [x] ∧ f.notices = [.timeNotAscending x.name]

section Frames

variable {f : Frame} {x : Field} {times : List (Option Instant)}

theorem times_of_mem_clocks (h : x ∈ f.clocks) : ∃ times, x.values = .times times := by
  have hsome := (List.mem_filter.mp h).2
  cases hvalues : x.values with
  | times vs => exact ⟨vs, rfl⟩
  | _ =>
    rw [hvalues] at hsome
    exact absurd hsome (by simp [Values.times?])

theorem tellsOrder_of_clock (hclock : f.clocks = [x]) (hvalues : x.values = .times times)
    (hnotices : f.notices = timeNotices x.name times) : f.TellsOrder := by
  by_cases hback : GoesBack times
  · rw [timeNotices_of_goesBack hback] at hnotices
    have htells : f.TellsBack := ⟨x.name, by simp [hnotices]⟩
    exact ⟨iff_of_true htells ⟨x, times, hclock, hvalues, hback⟩, fun _ => ⟨x, hclock, hnotices⟩⟩
  · rw [timeNotices_of_not_goesBack hback] at hnotices
    have hsilent : ¬ f.TellsBack := by
      rintro ⟨name, hname⟩
      rw [hnotices] at hname
      exact absurd hname List.not_mem_nil
    refine ⟨iff_of_false hsilent ?_, fun htells => absurd htells hsilent⟩
    rintro ⟨y, times', hclock', hvalues', hback'⟩
    obtain rfl := (List.cons.inj (hclock.symm.trans hclock')).1
    obtain rfl := Values.times.inj (hvalues.symm.trans hvalues')
    exact hback hback'

theorem tellsOrder_of_no_clock (hclocks : ∀ x, f.clocks ≠ [x]) (hnotices : f.notices = []) :
    f.TellsOrder := by
  have hsilent : ¬ f.TellsBack := by
    rintro ⟨name, hname⟩
    rw [hnotices] at hname
    exact absurd hname List.not_mem_nil
  refine ⟨iff_of_false hsilent ?_, fun htells => absurd htells hsilent⟩
  rintro ⟨x, -, hclock, -⟩
  exact hclocks x hclock

/-! ### Series -/

theorem clocks_seriesFrame (timeName column : String) (times : List (Option Instant))
    (numbers : List (Option Binary64)) (labels : List Label) :
    (seriesFrame timeName times column numbers labels).clocks =
      [{ name := timeName, values := .times times }] := rfl

theorem tellsOrder_seriesFrame (timeName column : String) (times : List (Option Instant))
    (numbers : List (Option Binary64)) (labels : List Label) :
    (seriesFrame timeName times column numbers labels).TellsOrder :=
  tellsOrder_of_clock (clocks_seriesFrame ..) rfl rfl

/-! ### Tables -/

/-- Only the fields of times are looked at. -/
theorem tableNotices_eq (fields : List Field) : tableNotices fields =
    match fields.filter fun x => x.values.times?.isSome with
    | [x] => timeNotices x.name (x.values.times?.getD [])
    | _ => [] := by
  have hkept : (fields.filterMap fun x => x.values.times?.map (x.name, ·)) =
      (fields.filter fun x => x.values.times?.isSome).map
        fun x => (x.name, x.values.times?.getD []) := by
    induction fields with
    | nil => rfl
    | cons x fields ih =>
      cases hx : x.values.times? with
      | none => simp [hx, ih]
      | some times => simp [hx, ih]
  rw [tableNotices, hkept]
  generalize (fields.filter fun x => x.values.times?.isSome) = clocks
  rcases clocks with _ | ⟨x, _ | ⟨y, rest⟩⟩ <;> rfl

theorem tellsOrder_tableFrame (name : String) (fields : List Field) :
    (Frame.mk name fields (tableNotices fields)).TellsOrder := by
  have hnotices := tableNotices_eq fields
  by_cases hone : ∃ x, (fields.filter fun x => x.values.times?.isSome) = [x]
  · obtain ⟨x, hx⟩ := hone
    have hclock : (Frame.mk name fields (tableNotices fields)).clocks = [x] := hx
    obtain ⟨times, hvalues⟩ := times_of_mem_clocks (hclock ▸ List.mem_singleton_self x)
    rw [hx] at hnotices
    simp only [hvalues] at hnotices
    exact tellsOrder_of_clock hclock hvalues hnotices
  · refine tellsOrder_of_no_clock (fun x hx => hone ⟨x, hx⟩) ?_
    rw [hnotices]
    split
    · rename_i x hx
      exact absurd ⟨x, hx⟩ hone
    · rfl

end Frames

/-! ## All formats -/

section Shapes

variable {format : ResultFormat} {t : DataTable} {ts : List DataTable} {frames : List Frame}
  {f : Frame} {s : Shaped}

/-- In both formats of series the frames are series. -/
theorem exists_seriesFrame (hformat : format ≠ .table) (h : shapeTable format t = .ok frames)
    (hf : f ∈ frames) :
    ∃ timeName times column numbers labels,
      f = seriesFrame timeName times column numbers labels := by
  obtain ⟨-, h⟩ := shapeTable_eq_ok_iff.mp h
  cases format with
  | table => exact absurd rfl hformat
  | timeSeries =>
    obtain ⟨time, columns, -, -, -, -, rfl⟩ := timeSeries_eq_ok_iff.mp h
    obtain ⟨labels, -, hf⟩ := List.mem_flatMap.mp hf
    obtain ⟨c, -, rfl⟩ := List.mem_map.mp hf
    exact ⟨_, _, _, _, _, rfl⟩
  | arraySeries =>
    obtain ⟨timestamps, -, -, -, rfl⟩ := arraySeriesWith_eq_ok_iff.mp h
    obtain ⟨row, -, hf⟩ := List.mem_flatMap.mp hf
    obtain ⟨c, -, rfl⟩ := List.mem_map.mp hf
    exact ⟨_, _, _, _, _, rfl⟩

theorem exists_tableFrame (h : shapeTable .table t = .ok frames) (hf : f ∈ frames) :
    ∃ fields, f = ⟨t.name, fields, tableNotices fields⟩ := by
  obtain ⟨-, h⟩ := shapeTable_eq_ok_iff.mp h
  obtain ⟨frame, hframe, h⟩ := exists_of_bind_ok h
  obtain rfl := Except.ok.inj h
  obtain ⟨fields, -, hframe⟩ := exists_of_bind_ok hframe
  obtain rfl := Except.ok.inj hframe
  exact ⟨fields, List.mem_singleton.mp hf⟩

theorem tellsOrder_of_shapeTable (h : shapeTable format t = .ok frames) (hf : f ∈ frames) :
    f.TellsOrder := by
  by_cases hformat : format = .table
  · subst hformat
    obtain ⟨fields, rfl⟩ := exists_tableFrame h hf
    exact tellsOrder_tableFrame t.name fields
  · obtain ⟨timeName, times, column, numbers, labels, rfl⟩ := exists_seriesFrame hformat h hf
    exact tellsOrder_seriesFrame timeName column times numbers labels

/-- A frame of a result is one of a table. -/
theorem exists_table_of_shape (h : shape format ts = .ok s) (hf : f ∈ s.frames) :
    ∃ t ∈ ts, ∃ frames, shapeTable format t = .ok frames ∧ f ∈ frames := by
  obtain ⟨rows, hrows, h⟩ := exists_of_bind_ok h
  obtain rfl := Except.ok.inj h
  obtain ⟨frames, hmem, hf⟩ := List.mem_flatten.mp hf
  obtain ⟨t, ht, hframes⟩ := mem_of_mapM_ok hrows hmem
  exact ⟨t, ht, frames, hframes, hf⟩

theorem timeNotAscending_iff : s.timeNotAscending = true ↔ ∃ f ∈ s.frames, f.TellsBack := by
  unfold Shaped.timeNotAscending
  rw [List.any_eq_true]
  refine exists_congr fun f => and_congr_right fun _ => ?_
  rw [Bool.not_eq_true', List.isEmpty_eq_false_iff_exists_mem]
  constructor
  · rintro ⟨⟨name⟩, hname⟩
    exact ⟨name, hname⟩
  · rintro ⟨name, hname⟩
    exact ⟨_, hname⟩

/-- **The notice about the order of times is exact.**  In the frames of any tables in any format it
is there exactly if the frame has one field of times and there some known time is earlier than a
known time in front of it; it is there once and names that field.  The frames of series all have
one field of times.  The result tells that times go back exactly if one of its frames does. -/
theorem shape_tellsOrder (format : ResultFormat) (ts : List DataTable) (s : Shaped)
    (h : shape format ts = .ok s) :
    (∀ f ∈ s.frames, f.TellsOrder) ∧
    (format ≠ .table → ∀ f ∈ s.frames, ∃ x times, f.clocks = [x] ∧ x.values = .times times) ∧
    (s.timeNotAscending = true ↔ ∃ f ∈ s.frames, f.TellsBack) := by
  refine ⟨fun f hf => ?_, fun hformat f hf => ?_, timeNotAscending_iff⟩
  · obtain ⟨t, -, frames, hframes, hf⟩ := exists_table_of_shape h hf
    exact tellsOrder_of_shapeTable hframes hf
  · obtain ⟨t, -, frames, hframes, hf⟩ := exists_table_of_shape h hf
    obtain ⟨timeName, times, column, numbers, labels, rfl⟩ :=
      exists_seriesFrame hformat hframes hf
    exact ⟨_, times, clocks_seriesFrame .., rfl⟩

end Shapes

/-- The last time is earlier than the two that stand in front of it, with null between them. -/
def backTable : DataTable where
  columns := [
    ⟨"Seen", "datetime", [.ofInt 60000, .null, .str "1970-01-01T00:01:00Z", .ofInt 0]⟩,
    ⟨"Count", "long", [.ofInt 1, .ofInt 2, .ofInt 3, .null]⟩]

def backSeries : Shaped where
  format := .timeSeries
  frames := [seriesFrame "Seen" [some ⟨60, 0⟩, none, some ⟨60, 0⟩, some ⟨0, 0⟩] "Count"
    [some (Binary64.ofInt 1), some (Binary64.ofInt 2), some (Binary64.ofInt 3), none] []]

theorem shape_tellsOrder_back : shape .timeSeries [backTable] = .ok backSeries ∧
    (∃ f ∈ backSeries.frames, f.TellsBack) ∧ ∀ f ∈ backSeries.frames, f.TellsOrder := by
  have hshape : shape .timeSeries [backTable] = .ok backSeries := by decide +kernel
  obtain ⟨horder, -, htells⟩ := shape_tellsOrder .timeSeries [backTable] backSeries hshape
  exact ⟨hshape, htells.mp (by decide +kernel), horder⟩

end Kusto.Result
