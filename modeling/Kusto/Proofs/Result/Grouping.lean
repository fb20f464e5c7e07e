import Kusto.Result.Shape
import Mathlib.Data.List.Nodup
import Mathlib.Data.List.Induction

/-!
# Groups of rows — rows with the same labels

The rows of a table fall into groups by their labels.  The distinct labels, each with the positions
at which it stands, are such groups: every row is in one of them and only once, rows are together if
their labels are equal, and groups come in the order of their first rows.
-/

namespace Kusto.Result

/-! ## Distinct values and their positions -/

section Positions

variable {α : Type} [DecidableEq α] {x y : α} {xs : List α} {r : Nat}

@[simp] theorem distinct_nil : distinct ([] : List α) = [] := rfl

theorem distinct_concat (xs : List α) (x : α) :
    distinct (xs ++ [x]) = if x ∈ distinct xs then distinct xs else distinct xs ++ [x] := by
  rw [distinct, List.foldl_append]
  rfl

theorem mem_distinct : x ∈ distinct xs ↔ x ∈ xs := by
  induction xs using List.reverseRecOn with
  | nil => simp
  | append_singleton xs y ih =>
    rw [distinct_concat]
    split
    · rename_i hy
      constructor
      · intro h
        exact List.mem_append_left _ (ih.mp h)
      · intro h
        rcases List.mem_append.mp h with h | h
        · exact ih.mpr h
        · rwa [List.mem_singleton.mp h]
    · simp [ih]

theorem nodup_distinct (xs : List α) : (distinct xs).Nodup := by
  induction xs using List.reverseRecOn with
  | nil => exact List.nodup_nil
  | append_singleton xs y ih =>
    rw [distinct_concat]
    split
    · exact ih
    · rename_i hy
      simpa using ih.concat hy

/-- Where a value stands. -/
def positions (x : α) (xs : List α) : List Nat :=
  (List.range xs.length).filter fun r => xs[r]? = some x

theorem mem_positions : r ∈ positions x xs ↔ xs[r]? = some x := by
  simp only [positions, List.mem_filter, List.mem_range, decide_eq_true_eq, and_iff_right_iff_imp]
  intro h
  exact (List.getElem?_eq_some_iff.mp h).1

theorem lt_of_mem_positions (h : r ∈ positions x xs) : r < xs.length :=
  (List.getElem?_eq_some_iff.mp (mem_positions.mp h)).1

theorem positions_pairwise (x : α) (xs : List α) : (positions x xs).Pairwise (· < ·) :=
  List.pairwise_lt_range.filter _

theorem positions_concat (x : α) (xs : List α) (y : α) :
    positions x (xs ++ [y]) = positions x xs ++ if y = x then [xs.length] else [] := by
  have hold : ∀ r ∈ List.range xs.length,
      decide ((xs ++ [y])[r]? = some x) = decide (xs[r]? = some x) := by
    intro r hr
    rw [List.getElem?_append_left (List.mem_range.mp hr)]
  unfold positions
  rw [List.length_append, List.length_singleton, List.range_succ, List.filter_append,
    List.filter_congr hold]
  by_cases hy : y = x <;> simp [hy]

theorem mem_positions_map_range {f : Nat → α} {n : Nat} :
    r ∈ positions x ((List.range n).map f) ↔ r < n ∧ f r = x := by
  rw [mem_positions, List.getElem?_map, Option.map_eq_some_iff]
  simp only [List.getElem?_eq_some_iff, List.getElem_range, List.length_range]
  constructor
  · rintro ⟨s, ⟨hlt, rfl⟩, hx⟩
    exact ⟨hlt, hx⟩
  · rintro ⟨hlt, hx⟩
    exact ⟨r, ⟨hlt, rfl⟩, hx⟩

theorem exists_position (h : x ∈ xs) : ∃ r, r ∈ positions x xs := by
  obtain ⟨r, hr⟩ := List.mem_iff_getElem?.mp h
  exact ⟨r, mem_positions.mpr hr⟩

/-- Distinct values come in the order of their first places. -/
theorem distinct_pairwise (xs : List α) : (distinct xs).Pairwise fun x y =>
    ∃ r ∈ positions x xs, ∀ s ∈ positions y xs, r < s := by
  induction xs using List.reverseRecOn with
  | nil => exact List.Pairwise.nil
  | append_singleton xs z ih =>
    -- A place before all old places of another value is also before a new one.
    have hold : (distinct xs).Pairwise fun x y =>
        ∃ r ∈ positions x (xs ++ [z]), ∀ s ∈ positions y (xs ++ [z]), r < s := by
      refine ih.imp ?_
      rintro x y ⟨r, hr, hbefore⟩
      refine ⟨r, ?_, fun s hs => ?_⟩
      · rw [positions_concat]
        exact List.mem_append_left _ hr
      · rw [positions_concat] at hs
        rcases List.mem_append.mp hs with hs | hs
        · exact hbefore s hs
        · have hlt := lt_of_mem_positions hr
          split at hs
          · rwa [List.mem_singleton.mp hs]
          · exact absurd hs List.not_mem_nil
    rw [distinct_concat]
    split
    · exact hold
    · rename_i hz
      refine List.pairwise_append.mpr ⟨hold, List.pairwise_singleton _ _, ?_⟩
      intro x hx y hy
      obtain rfl := List.mem_singleton.mp hy
      obtain ⟨r, hr⟩ := exists_position (mem_distinct.mp hx)
      refine ⟨r, ?_, fun s hs => ?_⟩
      · rw [positions_concat]
        exact List.mem_append_left _ hr
      · rw [positions_concat, if_pos rfl] at hs
        rcases List.mem_append.mp hs with hs | hs
        · have hin := List.mem_iff_getElem?.mpr ⟨s, mem_positions.mp hs⟩
          exact absurd (mem_distinct.mpr hin) hz
        · rw [List.mem_singleton.mp hs]
          exact lt_of_mem_positions hr

end Positions

/-! ## Groups -/

/-- Rows that share their labels. -/
structure Group where
  labels : List Label
  rows : List Nat
  deriving DecidableEq

/-- The groups split `n` rows by their labels. -/
structure IsGrouping (labelsOf : Nat → List Label) (n : Nat) (groups : List Group) : Prop where
  /-- Every row is in a group, and only once. -/
  once : (groups.flatMap Group.rows).Perm (List.range n)
  /-- The labels of a group are those of its rows. -/
  shared : ∀ g ∈ groups, ∀ r ∈ g.rows, labelsOf r = g.labels
  /-- Two rows are in one group if their labels are equal, and only then. -/
  together : ∀ r < n, ∀ s < n,
    (∃ g ∈ groups, r ∈ g.rows ∧ s ∈ g.rows) ↔ labelsOf r = labelsOf s
  nonempty : ∀ g ∈ groups, g.rows ≠ []
  /-- Inside a group rows come in the order of the table. -/
  ascending : ∀ g ∈ groups, g.rows.Pairwise (· < ·)
  /-- Groups come in the order of their first rows. -/
  byFirst : groups.Pairwise fun g h => ∃ r ∈ g.rows, ∀ s ∈ h.rows, r < s

/-- The distinct labels with their rows. -/
def groupsOf (rows : List (List Label)) : List Group :=
  (distinct rows).map fun labels => ⟨labels, positions labels rows⟩

section Groups

theorem rows_of_mem_groupsOf {rows : List (List Label)} {g : Group} (h : g ∈ groupsOf rows) :
    g.labels ∈ rows ∧ g.rows = positions g.labels rows := by
  obtain ⟨labels, hlabels, rfl⟩ := List.mem_map.mp h
  exact ⟨mem_distinct.mp hlabels, rfl⟩

theorem nodup_rows_groupsOf (rows : List (List Label)) :
    ((groupsOf rows).flatMap Group.rows).Nodup := by
  unfold groupsOf
  rw [List.flatMap_map, List.nodup_flatMap]
  constructor
  · intro labels _
    exact (positions_pairwise labels rows).imp Nat.ne_of_lt
  · refine (nodup_distinct rows).imp ?_
    intro a b hab r ha hb
    have heq := (mem_positions.mp ha).symm.trans (mem_positions.mp hb)
    exact hab (Option.some.inj heq)

variable {labelsOf : Nat → List Label} {n r : Nat} {g : Group}

theorem mem_rows_iff (h : g ∈ groupsOf ((List.range n).map labelsOf)) :
    r ∈ g.rows ↔ r < n ∧ labelsOf r = g.labels := by
  rw [(rows_of_mem_groupsOf h).2]
  exact mem_positions_map_range

/-- Every row has a group of its labels. -/
theorem exists_group (labelsOf : Nat → List Label) (h : r < n) :
    ∃ g ∈ groupsOf ((List.range n).map labelsOf), g.labels = labelsOf r := by
  have hin : labelsOf r ∈ (List.range n).map labelsOf :=
    List.mem_map_of_mem (List.mem_range.mpr h)
  exact ⟨_, List.mem_map.mpr ⟨_, mem_distinct.mpr hin, rfl⟩, rfl⟩

/-- The distinct labels with their rows split the rows. -/
theorem isGrouping_groupsOf (labelsOf : Nat → List Label) (n : Nat) :
    IsGrouping labelsOf n (groupsOf ((List.range n).map labelsOf)) := by
  constructor
  case once =>
    -- no row is in two groups, so it is enough that each is in one
    refine (List.perm_ext_iff_of_nodup (nodup_rows_groupsOf _) List.nodup_range).mpr fun r => ?_
    rw [List.mem_flatMap, List.mem_range]
    constructor
    · rintro ⟨g, hg, hr⟩
      exact ((mem_rows_iff hg).mp hr).1
    · intro hr
      obtain ⟨g, hg, hlabels⟩ := exists_group labelsOf hr
      exact ⟨g, hg, (mem_rows_iff hg).mpr ⟨hr, hlabels.symm⟩⟩
  case shared =>
    intro g hg r hr
    exact ((mem_rows_iff hg).mp hr).2
  case together =>
    intro r hr s hs
    constructor
    · rintro ⟨g, hg, hrg, hsg⟩
      rw [((mem_rows_iff hg).mp hrg).2, ((mem_rows_iff hg).mp hsg).2]
    · intro heq
      obtain ⟨g, hg, hlabels⟩ := exists_group labelsOf hr
      exact ⟨g, hg, (mem_rows_iff hg).mpr ⟨hr, hlabels.symm⟩,
        (mem_rows_iff hg).mpr ⟨hs, heq.symm.trans hlabels.symm⟩⟩
  case nonempty =>
    intro g hg
    obtain ⟨hin, hrows⟩ := rows_of_mem_groupsOf hg
    obtain ⟨r, hr⟩ := exists_position hin
    rw [hrows]
    exact List.ne_nil_of_mem hr
  case ascending =>
    intro g hg
    rw [(rows_of_mem_groupsOf hg).2]
    exact positions_pairwise _ _
  case byFirst => exact List.pairwise_map.mpr (distinct_pairwise _)

end Groups

end Kusto.Result
