import Kusto.Schema.Discovery

/-!
# Discovered columns — where they come from and which paths they are

A discovered column is a leaf of the shape: its type is the type at the leaf, and its name is the
dynamic column and the keys on the way, with dots between.  Such a name is cut at its dots when it
is read, so column and keys come back if none of them has a dot and no key is empty, and only then.
-/

open Kusto.Text (pieces joinWith)

namespace Kusto

/-! ## Adding columns -/

namespace Columns

variable {cs : Columns} {name : String} {c : Column}

/-- The first column of that name holds dynamic values. -/
def IsDynamic (cs : Columns) (name : String) : Prop :=
  ∃ c, cs.find? name = some c ∧ c.isDynamic = true

/-- A name that finds a column finds the same one after more are added. -/
theorem find_add_of_some (h : cs.find? name = some c) (new : Column) :
    (cs.add new).find? name = some c := by
  unfold add
  split
  · exact h
  · have happend : (cs ++ [new]).find? name = (cs.find? name).or (find? [new] name) :=
      List.find?_append
    rw [happend, h, Option.some_or]

theorem find_addAll_of_some (h : cs.find? name = some c) (new : Columns) :
    (cs.addAll new).find? name = some c := by
  induction new generalizing cs with
  | nil => exact h
  | cons d new ih => exact ih (find_add_of_some h d)

theorem isSome_find_add_self (cs : Columns) (new : Column) :
    ((cs.add new).find? new.name).isSome := by
  unfold add
  split
  · assumption
  · simp [find?]

/-- Each name that is added finds a column. -/
theorem isSome_find_addAll {new : Columns} (h : c ∈ new) :
    ((cs.addAll new).find? c.name).isSome := by
  induction new generalizing cs with
  | nil => exact absurd h List.not_mem_nil
  | cons d new ih =>
    rcases List.mem_cons.mp h with rfl | h
    · obtain ⟨e, he⟩ := Option.isSome_iff_exists.mp (isSome_find_add_self cs c)
      have hfind : ((cs.add c).addAll new).find? c.name = some e := find_addAll_of_some he new
      exact Option.isSome_iff_exists.mpr ⟨e, hfind⟩
    · exact ih h

/-- A name finds what it found before, unless it found nothing and a column of that name is
added. -/
theorem find_add (h : c.name = name → (cs.find? name).isSome) :
    (cs.add c).find? name = cs.find? name := by
  unfold add
  split
  · rfl
  · rename_i hnew
    have hne : c.name ≠ name := by
      rintro rfl
      exact hnew (h rfl)
    have happend : (cs ++ [c]).find? name = (cs.find? name).or (find? [c] name) :=
      List.find?_append
    have hnone : find? [c] name = none := by simp [find?, hne]
    rw [happend, hnone, Option.or_none]

theorem find_addAll {new : Columns} (h : ∀ c ∈ new, c.name = name → (cs.find? name).isSome) :
    (cs.addAll new).find? name = cs.find? name := by
  induction new generalizing cs with
  | nil => rfl
  | cons c new ih =>
    obtain ⟨hc, hnew⟩ := List.forall_mem_cons.mp h
    have hadd := find_add hc
    have hrest : ∀ d ∈ new, d.name = name → ((cs.add c).find? name).isSome := by
      intro d hd hname
      rw [hadd]
      exact hnew d hd hname
    exact (ih hrest).trans hadd

/-- The first column of times stays the first. -/
theorem firstDateTime_addAll (h : cs.firstDateTime? = some c) (new : Columns) :
    (cs.addAll new).firstDateTime? = some c := by
  induction new generalizing cs with
  | nil => exact h
  | cons d new ih =>
    refine ih ?_
    unfold add
    split
    · exact h
    · have happend : (cs ++ [d]).firstDateTime? =
          (cs.firstDateTime?).or (firstDateTime? [d]) := List.find?_append
      rw [happend, h, Option.some_or]

theorem IsDynamic.addAll (h : cs.IsDynamic name) (new : Columns) :
    (cs.addAll new).IsDynamic name := by
  obtain ⟨c, hc, hdyn⟩ := h
  exact ⟨c, find_addAll_of_some hc new, hdyn⟩

end Columns

namespace Schema

/-! ## Leaves of a shape -/

/-- The shape has a type at the end of the keys.  A list of types stands for its first, and the
shape of array elements is no part of the way. -/
inductive Leaf : Json → List String → String → Prop
  | type (t : String) : Leaf (.str t) [] t
  | types {ts : List Json} {t : String} (h : firstText? ts = some t) : Leaf (.arr ts) [] t
  | member {ms : List (String × Json)} {key : String} {j : Json} {keys : List String} {t : String}
    (hmem : (key, j) ∈ ms) (hkey : key ≠ elementKey) (h : Leaf j keys t) :
    Leaf (.obj ms) (key :: keys) t

/-- The name of a column below a dynamic one: the column and the keys with dots between. -/
def pathName (column : String) (keys : List String) : String :=
  keys.foldl (fun path key => path ++ "." ++ key) column

@[simp] theorem pathName_nil (column : String) : pathName column [] = column := rfl

@[simp] theorem pathName_cons (column key : String) (keys : List String) :
    pathName column (key :: keys) = pathName (column ++ "." ++ key) keys := rfl

mutual

/-- The columns discovered are the leaves of the shape, each under its path. -/
theorem mem_discovered_iff (path : String) (j : Json) (c : Column) :
    c ∈ discovered path j ↔ ∃ keys, Leaf j keys c.type ∧ c.name = pathName path keys := by
  cases j with
  | obj ms =>
    rw [discovered, mem_discoveredIn_iff path ms c]
    constructor
    · rintro ⟨key, j, keys, hmem, hkey, hleaf, hname⟩
      exact ⟨key :: keys, .member hmem hkey hleaf, hname⟩
    · rintro ⟨keys, hleaf, hname⟩
      cases hleaf with
      | member hmem hkey hleaf => exact ⟨_, _, _, hmem, hkey, hleaf, hname⟩
  | str t =>
    rw [discovered, List.mem_singleton]
    constructor
    · rintro rfl
      exact ⟨[], .type t, rfl⟩
    · rintro ⟨keys, hleaf, hname⟩
      cases hleaf with
      | type => rw [← show c.name = path from hname]
  | arr ts =>
    rw [discovered]
    constructor
    · intro h
      split at h
      · rename_i t ht
        rw [List.mem_singleton.mp h]
        exact ⟨[], .types ht, rfl⟩
      · exact absurd h List.not_mem_nil
    · rintro ⟨keys, hleaf, hname⟩
      cases hleaf with
      | types ht =>
        rw [ht, List.mem_singleton, ← show c.name = path from hname]
  | null | bool _ | num _ =>
    refine ⟨fun h => absurd h List.not_mem_nil, ?_⟩
    rintro ⟨keys, hleaf, -⟩
    cases hleaf
termination_by structural j

theorem mem_discoveredIn_iff (path : String) (ms : List (String × Json)) (c : Column) :
    c ∈ discoveredIn path ms ↔ ∃ key j keys, (key, j) ∈ ms ∧ key ≠ elementKey ∧
      Leaf j keys c.type ∧ c.name = pathName path (key :: keys) := by
  cases ms with
  | nil =>
    rw [discoveredIn]
    refine ⟨fun h => absurd h List.not_mem_nil, ?_⟩
    rintro ⟨_, _, _, hmem, _⟩
    exact absurd hmem List.not_mem_nil
  | cons m ms =>
    obtain ⟨k, v⟩ := m
    rw [discoveredIn, List.mem_append, mem_discoveredIn_iff path ms c]
    constructor
    · rintro (h | ⟨key, j, keys, hmem, h⟩)
      · -- nothing is discovered below the key that stands for the elements of arrays
        split at h
        · exact absurd h List.not_mem_nil
        · rename_i hk
          obtain ⟨keys, hleaf, hname⟩ := (mem_discovered_iff _ v c).mp h
          exact ⟨k, v, keys, List.mem_cons_self, hk, hleaf, hname⟩
      · exact ⟨key, j, keys, List.mem_cons_of_mem _ hmem, h⟩
    · rintro ⟨key, j, keys, hmem, hkey, hleaf, hname⟩
      rcases List.mem_cons.mp hmem with heq | hmem
      · obtain ⟨hk, hj⟩ := Prod.mk.inj heq
        rw [hj] at hleaf
        rw [hk] at hkey hname
        rw [if_neg hkey]
        exact .inl ((mem_discovered_iff _ v c).mpr ⟨keys, hleaf, hname⟩)
      · exact .inr ⟨key, j, keys, hmem, hkey, hleaf, hname⟩
termination_by structural ms

end

/-! ## Reading a path name -/

/-- The text of a path name: the column and the keys with dots between. -/
theorem toList_pathName (column : String) (keys : List String) :
    (pathName column keys).toList = joinWith ['.'] ((column :: keys).map String.toList) := by
  induction keys generalizing column with
  | nil => rfl
  | cons key keys ih =>
    have hdot : (column ++ "." ++ key).toList = column.toList ++ ['.'] ++ key.toList := by simp
    rw [pathName_cons, ih, List.map_cons, hdot]
    cases keys with
    | nil => rfl
    | cons next keys => simp [joinWith]

/-- The column has no dot, and no key has one or is empty. -/
def IsPlainPath (column : String) (keys : List String) : Prop :=
  '.' ∉ column.toList ∧ ∀ key ∈ keys, key ≠ "" ∧ '.' ∉ key.toList

instance (column : String) (keys : List String) : Decidable (IsPlainPath column keys) :=
  inferInstanceAs (Decidable (_ ∧ _))

/-- The pieces of a path name are the column and the keys if these have no dots, and only then. -/
theorem pieces_pathName_iff (column : String) (keys : List String) :
    (pieces '.' (pathName column keys).toList).map String.ofList = column :: keys ↔
      ∀ part ∈ column :: keys, '.' ∉ part.toList := by
  constructor
  · intro h part hpart
    rw [← h] at hpart
    obtain ⟨p, hp, rfl⟩ := List.mem_map.mp hpart
    rw [String.toList_ofList]
    exact Text.not_mem_of_mem_pieces hp
  · intro h
    have hparts : ∀ p ∈ (column :: keys).map String.toList, '.' ∉ p := by
      intro p hp
      obtain ⟨part, hpart, rfl⟩ := List.mem_map.mp hp
      exact h part hpart
    rw [toList_pathName, Text.pieces_joinWith (by simp) hparts, List.map_map]
    exact List.map_id'' (fun s => String.ofList_toList) _

end Schema

namespace Columns

open Schema (IsPlainPath pathName pieces_pathName_iff)

/-- A name is a path if it is cut into a dynamic column and keys of which none is empty. -/
theorem dynamicPath_eq_some_iff {cs : Columns} {name root : String} {keys : List String} :
    cs.dynamicPath? name = some (root, keys) ↔
      (pieces '.' name.toList).map String.ofList = root :: keys ∧ keys ≠ [] ∧ "" ∉ keys ∧
        cs.IsDynamic root := by
  unfold dynamicPath?
  split
  · rename_i r k ks hparts
    rw [hparts]
    constructor
    · intro h
      split at h
      · exact absurd h (by simp)
      · rename_i hempty
        split at h
        · rename_i c hc
          split at h
          · rename_i hdyn
            obtain ⟨rfl, rfl⟩ := Prod.mk.inj (Option.some.inj h)
            exact ⟨rfl, by simp, hempty, c, hc, hdyn⟩
          · exact absurd h (by simp)
        · exact absurd h (by simp)
    · rintro ⟨heq, -, hempty, c, hc, hdyn⟩
      obtain ⟨rfl, rfl⟩ := List.cons.inj heq
      rw [if_neg hempty, hc]
      exact if_pos hdyn
  · rename_i hshort
    -- a name in one piece would have no keys
    refine ⟨fun h => absurd h (by simp), ?_⟩
    rintro ⟨heq, hne, -⟩
    obtain ⟨key, rest, rfl⟩ := List.exists_cons_of_ne_nil hne
    exact absurd heq (hshort root key rest)

/-- The name of a path below a dynamic column is read as that path if it is plain, and only
then. -/
theorem dynamicPath_pathName_iff {cs : Columns} {column : String} {keys : List String}
    (hdyn : cs.IsDynamic column) (hne : keys ≠ []) :
    cs.dynamicPath? (pathName column keys) = some (column, keys) ↔ IsPlainPath column keys := by
  rw [dynamicPath_eq_some_iff, pieces_pathName_iff]
  constructor
  · rintro ⟨hdots, -, hempty, -⟩
    refine ⟨hdots column List.mem_cons_self, fun key hkey => ⟨?_, ?_⟩⟩
    · rintro rfl
      exact hempty hkey
    · exact hdots key (List.mem_cons_of_mem _ hkey)
  · rintro ⟨hcolumn, hkeys⟩
    refine ⟨fun part hpart => ?_, hne, fun h => (hkeys "" h).1 rfl, hdyn⟩
    rcases List.mem_cons.mp hpart with rfl | hpart
    · exact hcolumn
    · exact (hkeys part hpart).2

/-- Which paths names stand for is told by the columns that names without a dot find. -/
theorem dynamicPath_congr {cs ds : Columns}
    (h : ∀ root : String, '.' ∉ root.toList → cs.find? root = ds.find? root) (name : String) :
    cs.dynamicPath? name = ds.dynamicPath? name := by
  refine Option.ext fun ⟨root, keys⟩ => ?_
  rw [dynamicPath_eq_some_iff, dynamicPath_eq_some_iff]
  refine and_congr_right fun hpieces => ?_
  have hroot : '.' ∉ root.toList := by
    have hmem : root ∈ (pieces '.' name.toList).map String.ofList := by
      rw [hpieces]
      exact List.mem_cons_self
    obtain ⟨p, hp, rfl⟩ := List.mem_map.mp hmem
    rw [String.toList_ofList]
    exact Text.not_mem_of_mem_pieces hp
  unfold IsDynamic
  rw [h root hroot]

end Columns

namespace Schema

/-! ## Names of discovered columns -/

theorem dot_mem_pathName (column : String) {keys : List String} (h : keys ≠ []) :
    '.' ∈ (pathName column keys).toList := by
  obtain ⟨key, keys, rfl⟩ := List.exists_cons_of_ne_nil h
  rw [toList_pathName, List.map_cons, Text.joinWith_cons _ _ (by simp)]
  simp

/-- A discovered column is the dynamic one itself, or its name has a dot. -/
theorem name_of_mem_discovered {column : String} {shape : Json} {c : Column}
    (h : c ∈ discovered column shape) : c.name = column ∨ '.' ∈ c.name.toList := by
  obtain ⟨keys, -, hname⟩ := (mem_discovered_iff column shape c).mp h
  rw [hname]
  by_cases hkeys : keys = []
  · rw [hkeys]
    exact .inl rfl
  · exact .inr (dot_mem_pathName column hkeys)

/-- What is discovered below a column that is there changes no path. -/
theorem dynamicPath_addAll_discovered {cs : Columns} {column : String}
    (h : (cs.find? column).isSome) (shape : Json) (name : String) :
    (cs.addAll (discovered column shape)).dynamicPath? name = cs.dynamicPath? name := by
  refine Columns.dynamicPath_congr (fun root hroot => Columns.find_addAll fun c hc hname => ?_) name
  -- The root of a path has no dot, so of the discovered columns only the dynamic one itself can be
  -- found as a root, and that one was found before.
  rcases name_of_mem_discovered hc with hcolumn | hdot
  · rw [← hname, hcolumn]
    exact h
  · rw [hname] at hdot
    exact absurd hdot hroot

end Schema

end Kusto
