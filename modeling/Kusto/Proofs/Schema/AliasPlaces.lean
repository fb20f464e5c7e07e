import Kusto.Proofs.Schema.AliasIndex

/-!
# Alias places — the first alias of each value, found by its place

An index keeps the first complete entry of each value, in the order of the entries, and no other
list does (`keepsFirsts_iff`).  Built as an array of aliases and a map from values to places in it,
it is the same index: whatever entries are passed over, the map has exactly the places of the kept
values (`PlacedIndex.represents_ofEntries`), so no look-up leaves the array.
-/

open Kusto.Text (IsTrimmed)

namespace Kusto.Schema

open AliasIndex (IsUnambiguous isUnambiguous_ofEntries keep_of_mem keep_of_not_mem
  find_value_of_mem find_eq_some_iff exists_says_of_mem)

/-! ## First entries -/

section Firsts

variable {entries : List AliasEntry} {aliases : List Alias} {placed : List (Nat × Alias)}
  {e : AliasEntry} {a b : Alias} {i : Nat} {v : String}

/-- A complete entry has the value. -/
def IsTaken (entries : List AliasEntry) (v : String) : Prop :=
  ∃ e ∈ entries, ∃ a, e.Says a ∧ a.value = v

/-- The entry at the place stands for the alias, and no complete entry before it has its value. -/
structure IsFirst (entries : List AliasEntry) (i : Nat) (a : Alias) : Prop where
  stands : ∃ e, entries[i]? = some e ∧ e.Says a
  fresh : ¬ IsTaken (entries.take i) a.value

/-- All first entries with their places, in the order of the entries. -/
structure AreFirsts (entries : List AliasEntry) (placed : List (Nat × Alias)) : Prop where
  ordered : placed.Pairwise (·.1 < ·.1)
  mem_iff : ∀ i a, (i, a) ∈ placed ↔ IsFirst entries i a

/-- The aliases are those of the first entries, in the order of the entries. -/
def KeepsFirsts (entries : List AliasEntry) (aliases : List Alias) : Prop :=
  ∃ placed, AreFirsts entries placed ∧ aliases = placed.map Prod.snd

theorem IsFirst.lt_length (h : IsFirst entries i a) : i < entries.length := by
  obtain ⟨e, he, -⟩ := h.stands
  exact (List.getElem?_eq_some_iff.mp he).1

/-- With one more item a list has its old ones at their places, and the new one behind them. -/
theorem getElem?_concat_iff {α : Type} {xs : List α} {x y : α} {i : Nat} :
    (xs ++ [x])[i]? = some y ↔ xs[i]? = some y ∨ i = xs.length ∧ x = y := by
  rcases Nat.lt_trichotomy i xs.length with hlt | rfl | hgt
  · rw [List.getElem?_append_left hlt]
    exact (or_iff_left fun h => hlt.ne h.1).symm
  · rw [List.getElem?_concat_length, List.getElem?_eq_none (Nat.le_refl _)]
    simp
  · have hlength : (xs ++ [x]).length ≤ i := by
      rw [List.length_append, List.length_singleton]
      exact hgt
    rw [List.getElem?_eq_none hlength, List.getElem?_eq_none hgt.le]
    simp [hgt.ne']

/-- With one more entry the first ones stay so, and it is one itself if its value is not taken. -/
theorem isFirst_concat : IsFirst (entries ++ [e]) i a ↔
    IsFirst entries i a ∨ i = entries.length ∧ e.Says a ∧ ¬ IsTaken entries a.value := by
  constructor
  · rintro ⟨⟨e', he', hsaid⟩, hfresh⟩
    rcases getElem?_concat_iff.mp he' with he' | ⟨rfl, rfl⟩
    · have hlt : i < entries.length := (List.getElem?_eq_some_iff.mp he').1
      rw [List.take_append_of_le_length hlt.le] at hfresh
      exact .inl ⟨⟨e', he', hsaid⟩, hfresh⟩
    · rw [List.take_left] at hfresh
      exact .inr ⟨rfl, hsaid, hfresh⟩
  · rintro (h | ⟨rfl, hsaid, hfresh⟩)
    · obtain ⟨e', he', hsaid⟩ := h.stands
      refine ⟨⟨e', getElem?_concat_iff.mpr (.inl he'), hsaid⟩, ?_⟩
      rw [List.take_append_of_le_length h.lt_length.le]
      exact h.fresh
    · refine ⟨⟨e, getElem?_concat_iff.mpr (.inr ⟨rfl, rfl⟩), hsaid⟩, ?_⟩
      rwa [List.take_left]

/-- Among the complete entries of a value there is a first one. -/
theorem exists_isFirst_of_isTaken (h : IsTaken entries v) :
    ∃ i a, IsFirst entries i a ∧ a.value = v := by
  induction entries using List.reverseRecOn with
  | nil =>
    obtain ⟨e, he, -⟩ := h
    exact absurd he List.not_mem_nil
  | append_singleton entries e ih =>
    by_cases hbefore : IsTaken entries v
    · obtain ⟨i, a, hfirst, hv⟩ := ih hbefore
      exact ⟨i, a, isFirst_concat.mpr (.inl hfirst), hv⟩
    · obtain ⟨e', he', a, hsaid, rfl⟩ := h
      rcases List.mem_append.mp he' with he' | he'
      · exact absurd ⟨e', he', a, hsaid, rfl⟩ hbefore
      · obtain rfl := List.mem_singleton.mp he'
        exact ⟨_, a, isFirst_concat.mpr (.inr ⟨rfl, hsaid, hbefore⟩), rfl⟩

namespace AreFirsts

theorem nil : AreFirsts [] [] := by
  refine ⟨.nil, fun i a => ⟨fun h => absurd h List.not_mem_nil, fun h => ?_⟩⟩
  exact absurd h.lt_length (Nat.not_lt_zero i)

/-- The values of the first entries are those of all complete ones. -/
theorem mem_values_iff (h : AreFirsts entries placed) :
    v ∈ (placed.map Prod.snd).map Alias.value ↔ IsTaken entries v := by
  rw [List.map_map, List.mem_map]
  constructor
  · rintro ⟨⟨i, a⟩, hmem, hv⟩
    obtain ⟨e, he, hsaid⟩ := ((h.mem_iff i a).mp hmem).stands
    exact ⟨e, List.mem_of_getElem? he, a, hsaid, hv⟩
  · intro htaken
    obtain ⟨i, a, hfirst, hv⟩ := exists_isFirst_of_isTaken htaken
    exact ⟨(i, a), (h.mem_iff i a).mpr hfirst, hv⟩

/-- An entry that says nothing, or has a value that is taken, is passed over. -/
theorem pass (h : AreFirsts entries placed) (he : ∀ a, e.Says a → IsTaken entries a.value) :
    AreFirsts (entries ++ [e]) placed := by
  refine ⟨h.ordered, fun i a => ?_⟩
  rw [h.mem_iff, isFirst_concat]
  constructor
  · exact .inl
  · rintro (hfirst | ⟨-, hsaid, hfresh⟩)
    · exact hfirst
    · exact absurd (he a hsaid) hfresh

/-- The entry of a value that is not taken is a first one, behind the others. -/
theorem push (h : AreFirsts entries placed) (he : e.Says a) (hfree : ¬ IsTaken entries a.value) :
    AreFirsts (entries ++ [e]) (placed ++ [(entries.length, a)]) := by
  constructor
  · refine List.pairwise_append.mpr ⟨h.ordered, List.pairwise_singleton _ _, ?_⟩
    rintro ⟨i, b⟩ hmem p hp
    rw [List.mem_singleton.mp hp]
    exact ((h.mem_iff i b).mp hmem).lt_length
  · intro i b
    rw [List.mem_append, h.mem_iff, List.mem_singleton, isFirst_concat, Prod.mk.injEq]
    refine or_congr_right (and_congr_right fun _ => ⟨?_, fun hb => hb.1.unique he⟩)
    rintro rfl
    exact ⟨he, hfree⟩

/-- There is one list of first entries only. -/
theorem unique {placed' : List (Nat × Alias)} (h : AreFirsts entries placed)
    (h' : AreFirsts entries placed') : placed = placed' := by
  have hnodup {ps : List (Nat × Alias)} (hps : ps.Pairwise (·.1 < ·.1)) : ps.Nodup :=
    hps.imp fun hlt heq => absurd (heq ▸ hlt) (Nat.lt_irrefl _)
  have hperm : placed.Perm placed' :=
    (List.perm_ext_iff_of_nodup (hnodup h.ordered) (hnodup h'.ordered)).mpr fun p =>
      (h.mem_iff p.1 p.2).trans (h'.mem_iff p.1 p.2).symm
  exact hperm.eq_of_pairwise (fun p q _ _ hpq hqp => absurd (hpq.trans hqp) (Nat.lt_irrefl _))
    h.ordered h'.ordered

end AreFirsts

/-- One more entry is dropped or kept by what it says. -/
theorem aliases_concat (enabled : Bool) (entries : List AliasEntry) (e : AliasEntry) :
    (AliasIndex.ofEntries enabled (entries ++ [e])).aliases =
      match e.complete? with
      | none => (AliasIndex.ofEntries enabled entries).aliases
      | some a => AliasIndex.keep (AliasIndex.ofEntries enabled entries).aliases a := by
  simp only [AliasIndex.ofEntries, List.filterMap_append, List.foldl_append]
  cases h : e.complete? <;> simp [h]

/-- After any number of entries an index has the first ones of these. -/
theorem keepsFirsts_ofEntries (enabled : Bool) (entries : List AliasEntry) :
    KeepsFirsts entries (AliasIndex.ofEntries enabled entries).aliases := by
  induction entries using List.reverseRecOn with
  | nil => exact ⟨[], .nil, rfl⟩
  | append_singleton entries e ih =>
    obtain ⟨placed, hfirsts, haliases⟩ := ih
    rw [aliases_concat, haliases]
    cases he : e.complete? with
    | none =>
      refine ⟨placed, hfirsts.pass fun a hsaid => ?_, rfl⟩
      exact absurd (he.symm.trans (AliasEntry.complete_iff.mpr hsaid)) (by simp)
    | some a =>
      have hsaid : e.Says a := AliasEntry.complete_iff.mp he
      -- a complete entry adds a place only if no entry before it says the same value
      by_cases htaken : IsTaken entries a.value
      · exact ⟨placed, hfirsts.pass fun b hb => hb.unique hsaid ▸ htaken,
          keep_of_mem (hfirsts.mem_values_iff.mpr htaken)⟩
      · refine ⟨_, hfirsts.push hsaid htaken, ?_⟩
        rw [List.map_append, List.map_singleton]
        exact keep_of_not_mem (mt hfirsts.mem_values_iff.mp htaken)

/-- **What an index keeps** are the aliases of the first entries, and no other list is. -/
theorem keepsFirsts_iff (enabled : Bool) :
    KeepsFirsts entries aliases ↔ aliases = (AliasIndex.ofEntries enabled entries).aliases := by
  obtain ⟨placed, hfirsts, haliases⟩ := keepsFirsts_ofEntries enabled entries
  constructor
  · rintro ⟨placed', hfirsts', rfl⟩
    rw [haliases, hfirsts'.unique hfirsts]
  · rintro rfl
    exact ⟨placed, hfirsts, haliases⟩

end Firsts

/-! ## Places -/

section Places

/-- An index that finds an alias by its place in an array. -/
structure PlacedIndex where
  enabled : Bool
  aliases : Array Alias := #[]
  places : Std.HashMap String Nat := ∅

namespace PlacedIndex

/-- Keep an alias behind the others and note its place, unless its value has one. -/
def keep (x : PlacedIndex) (a : Alias) : PlacedIndex :=
  if x.places.contains a.value then x
  else { x with
    aliases := x.aliases.push a
    places := x.places.insert a.value x.aliases.size }

/-- Keep the alias of the next entry if it is complete. -/
def add (x : PlacedIndex) (e : AliasEntry) : PlacedIndex :=
  match e.complete? with
  | some a => x.keep a
  | none => x

/-- The index of configured entries. -/
def ofEntries (enabled : Bool) (entries : List AliasEntry) : PlacedIndex :=
  entries.foldl add { enabled }

/-- The alias at the place of a value; a place outside of the array is an error. -/
def find? (x : PlacedIndex) (value : String) : Except Nat (Option Alias) :=
  if x.enabled then
    match x.places[value]? with
    | some place =>
      match x.aliases[place]? with
      | some a => .ok (some a)
      | none => .error place
    | none => .ok none
  else .ok none

/-- The aliases are those of the index, and each value has the place of its alias. -/
structure Represents (x : PlacedIndex) (y : AliasIndex) : Prop where
  enabled : x.enabled = y.enabled
  aliases : x.aliases.toList = y.aliases
  places : ∀ (v : String) (i : Nat), x.places[v]? = some i ↔ (y.aliases.map Alias.value)[i]? = some v

variable {x : PlacedIndex} {y : AliasIndex} {enabled : Bool} {kept : List Alias}

namespace Represents

theorem contains_iff (h : x.Represents y) {v : String} :
    x.places.contains v ↔ v ∈ y.aliases.map Alias.value := by
  rw [Std.HashMap.contains_eq_isSome_getElem?, Option.isSome_iff_exists, List.mem_iff_getElem?]
  exact exists_congr (h.places v)

/-- The places stay right with one more alias, whether it is kept or not. -/
theorem keep (h : x.Represents ⟨enabled, kept⟩) (a : Alias) :
    (x.keep a).Represents ⟨enabled, AliasIndex.keep kept a⟩ := by
  unfold PlacedIndex.keep
  by_cases htaken : a.value ∈ kept.map Alias.value
  · rw [if_pos (h.contains_iff.mpr htaken), keep_of_mem htaken]
    exact h
  · rw [if_neg (mt h.contains_iff.mp htaken), keep_of_not_mem htaken]
    have hsize : x.aliases.size = (kept.map Alias.value).length := by
      rw [← Array.length_toList, h.aliases, List.length_map]
    refine ⟨h.enabled, by simp [h.aliases], fun v i => ?_⟩
    rw [Std.HashMap.getElem?_insert, List.map_append, List.map_singleton, hsize,
      getElem?_concat_iff]
    by_cases hv : a.value = v
    · -- the value has one place only, as it was free before
      subst hv
      have hnew : (kept.map Alias.value)[i]? ≠ some a.value :=
        fun hi => htaken (List.mem_of_getElem? hi)
      rw [if_pos (beq_self_eq_true _), Option.some.injEq, or_iff_right hnew, and_iff_left rfl]
      exact eq_comm
    · simpa [hv] using h.places v i

theorem foldl_keep (h : x.Represents ⟨enabled, kept⟩) (new : List Alias) :
    (new.foldl PlacedIndex.keep x).Represents ⟨enabled, new.foldl AliasIndex.keep kept⟩ := by
  induction new generalizing x kept with
  | nil => exact h
  | cons a new ih => exact ih (h.keep a)

/-- The place of a value is in the array, and the alias there is the one that the index finds. -/
theorem find?_eq (h : x.Represents y) (hone : IsUnambiguous y.aliases) (v : String) :
    x.find? v = .ok (y.find? v) := by
  unfold PlacedIndex.find? AliasIndex.find?
  rw [h.enabled]
  split_ifs
  · cases hplace : x.places[v]? with
    | none =>
      have hfree : v ∉ y.aliases.map Alias.value := by
        rw [← h.contains_iff, Std.HashMap.contains_eq_isSome_getElem?, hplace]
        simp
      have hnone : y.aliases.find? (·.value = v) = none :=
        List.find?_eq_none.mpr fun a ha hv =>
          hfree (List.mem_map.mpr ⟨a, ha, of_decide_eq_true hv⟩)
      rw [hnone]
    | some place =>
      -- a place that has been given out stays right, since aliases are only added behind it
      have hvalue : (y.aliases.map Alias.value)[place]? = some v := (h.places v place).mp hplace
      rw [List.getElem?_map] at hvalue
      obtain ⟨a, ha, rfl⟩ := Option.map_eq_some_iff.mp hvalue
      have hat : x.aliases[place]? = some a := by
        rw [← Array.getElem?_toList, h.aliases]
        exact ha
      simp only [hat, find_value_of_mem hone (List.mem_of_getElem? ha)]
  · rfl

end Represents

theorem foldl_add (x : PlacedIndex) (entries : List AliasEntry) :
    entries.foldl add x = (entries.filterMap AliasEntry.complete?).foldl keep x := by
  induction entries generalizing x with
  | nil => rfl
  | cons e entries ih =>
    rw [List.foldl_cons, ih, List.filterMap_cons, add]
    cases e.complete? <;> rfl

/-- After any entries, complete or not, the places are those of the index. -/
theorem represents_ofEntries (enabled : Bool) (entries : List AliasEntry) :
    (ofEntries enabled entries).Represents (AliasIndex.ofEntries enabled entries) := by
  have hempty : ({ enabled } : PlacedIndex).Represents ⟨enabled, []⟩ := ⟨rfl, rfl, by simp⟩
  rw [ofEntries, foldl_add]
  exact hempty.foldl_keep _

end PlacedIndex

end Places

/-! ## Exactness -/

section Exact

/-- The texts of an alias. -/
def Alias.texts (a : Alias) : List String := [a.database, a.name, a.label, a.value]

/-- The index keeps what it should of the entries, and a value finds what is kept for it. -/
structure IsExact (enabled : Bool) (entries : List AliasEntry) (x : AliasIndex) : Prop where
  kept : ∀ aliases, KeepsFirsts entries aliases ↔ aliases = x.aliases
  distinct : IsUnambiguous x.aliases
  filled : ∀ a ∈ x.aliases, ∀ t ∈ a.texts, t ≠ "" ∧ IsTrimmed t.toList
  found : ∀ v a, x.find? v = some a ↔ enabled = true ∧ a ∈ x.aliases ∧ a.value = v

theorem AliasEntry.Says.filled {e : AliasEntry} {a : Alias} (h : e.Says a) :
    ∀ t ∈ a.texts, t ≠ "" ∧ IsTrimmed t.toList := by
  intro t ht
  simp only [Alias.texts, List.mem_cons, List.not_mem_nil, or_false] at ht
  rcases ht with rfl | rfl | rfl | rfl
  · exact ⟨h.database.ne_empty, h.database.trimmed⟩
  · exact ⟨h.name.ne_empty, h.name.trimmed⟩
  · exact ⟨h.label.ne_empty, h.label.trimmed⟩
  · exact ⟨h.value.ne_empty, h.value.trimmed⟩

/-- **An index of aliases is exact.**  An entry stands for an alias exactly if nothing is missing in
it.  Of any entries the index keeps the first one of each value, in their order, and no other; no
two aliases have one value, and no text is empty or has blanks around it.  In an index that is in
use a value finds the alias that has it; in another it finds nothing.  Kept by places, the aliases
are the same, the place of each value is that of its alias, and every look-up ends in the array and
finds the same. -/
theorem aliasIndex_exact (enabled : Bool) (entries : List AliasEntry) :
    (∀ e : AliasEntry, (∃ a, e.Says a) ↔ e.IsComplete) ∧
    IsExact enabled entries (AliasIndex.ofEntries enabled entries) ∧
    (PlacedIndex.ofEntries enabled entries).Represents (AliasIndex.ofEntries enabled entries) ∧
    ∀ v, (PlacedIndex.ofEntries enabled entries).find? v =
      .ok ((AliasIndex.ofEntries enabled entries).find? v) := by
  have hone := isUnambiguous_ofEntries enabled entries
  have hplaces := PlacedIndex.represents_ofEntries enabled entries
  refine ⟨fun e => AliasEntry.exists_says_iff, ⟨?_, hone, ?_, ?_⟩, hplaces, hplaces.find?_eq hone⟩
  · exact fun aliases => keepsFirsts_iff enabled
  · intro a ha
    obtain ⟨e, -, hsaid⟩ := exists_says_of_mem ha
    exact hsaid.filled
  · exact fun v a => find_eq_some_iff

/-- The blanks around a value are no part of it, so the third entry comes too late. -/
example : (AliasIndex.ofEntries true [{ value := some "s" },
    ⟨some "db", some "Storms", some "All", some "s\n", some "table"⟩,
    ⟨some "db", some "Old", some "Old", some " s", some "table"⟩,
    ⟨some "db", some "Errors", some "Errors", some "e", some " function "⟩]).aliases =
      [⟨"db", "Storms", "All", "s", .table⟩, ⟨"db", "Errors", "Errors", "e", .function⟩] := by
  decide +kernel

end Exact

end Kusto.Schema
