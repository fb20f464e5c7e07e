import Kusto.Schema.Alias
import Kusto.Proofs.Text.Blank
import Mathlib.Data.List.Nodup

/-!
# Alias indices — what an index keeps

The aliases of an index are what complete entries say, and no two of them have one value.  So the
value of an alias finds that alias, and nothing else does (`find_eq_some_iff`), and an option that
stands for an alias leads back to it.
-/

open Kusto.Text (IsTrimmed isBlank trim toList_trim trimmed_eq_iff trimmed_eq_nil_iff)

namespace Kusto.Schema

variable {a : Alias} {e : AliasEntry}

/-! ## Complete entries -/

section Complete

variable {s : Option String} {t : String}

/-- The field holds the text, perhaps with blanks around it; the text is what is left without them,
and something is. -/
structure Fills (s : Option String) (t : String) : Prop where
  held : ∃ u v, s = some (String.ofList (u ++ t.toList ++ v)) ∧ (∀ c ∈ u, isBlank c) ∧
    ∀ c ∈ v, isBlank c
  trimmed : IsTrimmed t.toList
  ne_empty : t ≠ ""

/-- The names of the kinds. -/
inductive AliasKind.Named : AliasKind → String → Prop
  | table : Named .table "table"
  | view : Named .view "materializedView"
  | viewInWords : Named .view "materialized_view"
  | function : Named .function "function"

/-- What an entry says: four texts and the name of a kind. -/
structure AliasEntry.Says (e : AliasEntry) (a : Alias) : Prop where
  database : Fills e.database a.database
  name : Fills e.name a.name
  label : Fills e.label a.label
  value : Fills e.value a.value
  kind : ∃ s, e.kind = some s ∧ a.kind.Named (trim s)

/-- The field is there, and there is more to it than blanks. -/
def IsFilled (s : Option String) : Prop := ∃ u, s = some u ∧ ∃ c ∈ u.toList, isBlank c = false

/-- Nothing is missing in an entry. -/
structure AliasEntry.IsComplete (e : AliasEntry) : Prop where
  database : IsFilled e.database
  name : IsFilled e.name
  label : IsFilled e.label
  value : IsFilled e.value
  kind : ∃ s kind, e.kind = some s ∧ AliasKind.Named kind (trim s)

theorem filled_eq_some_iff : filled? s = some t ↔ ∃ u, s = some u ∧ trim u = t ∧ t ≠ "" := by
  simp only [filled?, Option.bind_eq_bind, Option.bind_eq_some_iff]
  refine exists_congr fun u => and_congr_right fun _ => ?_
  split_ifs with h
  · simp [h]
  · rw [Option.some.injEq]
    exact ⟨fun heq => ⟨heq, heq ▸ h⟩, And.left⟩

theorem filled_iff : filled? s = some t ↔ Fills s t := by
  rw [filled_eq_some_iff]
  constructor
  · rintro ⟨u, rfl, rfl, hne⟩
    obtain ⟨htrimmed, x, y, hu, hx, hy⟩ := trimmed_eq_iff.mp (toList_trim u).symm
    exact ⟨⟨x, y, by rw [← hu, String.ofList_toList], hx, hy⟩, htrimmed, hne⟩
  · rintro ⟨⟨x, y, rfl, hx, hy⟩, htrimmed, hne⟩
    refine ⟨_, rfl, String.toList_injective ?_, hne⟩
    rw [toList_trim, String.toList_ofList]
    exact trimmed_eq_iff.mpr ⟨htrimmed, x, y, rfl, hx, hy⟩

theorem isSome_filled_iff : (filled? s).isSome ↔ IsFilled s := by
  simp only [Option.isSome_iff_exists, filled_eq_some_iff]
  constructor
  · rintro ⟨t, u, rfl, rfl, hne⟩
    refine ⟨u, rfl, ?_⟩
    by_contra hblank
    refine hne (String.toList_eq_nil_iff.mp ?_)
    rw [toList_trim, trimmed_eq_nil_iff]
    simpa using hblank
  · rintro ⟨u, rfl, c, hc, hblank⟩
    refine ⟨trim u, u, rfl, rfl, fun hempty => ?_⟩
    rw [← String.toList_eq_nil_iff, toList_trim, trimmed_eq_nil_iff] at hempty
    exact absurd (hempty c hc) (by simp [hblank])

theorem AliasKind.ofName_iff {kind : AliasKind} : AliasKind.ofName? t = some kind ↔ kind.Named t := by
  constructor
  · intro h
    unfold AliasKind.ofName? at h
    split_ifs at h with htable hview hfunction
    · obtain rfl := Option.some.inj h
      exact htable ▸ .table
    · obtain rfl := Option.some.inj h
      rcases hview with rfl | rfl
      · exact .view
      · exact .viewInWords
    · obtain rfl := Option.some.inj h
      exact hfunction ▸ .function
  · rintro (_ | _ | _ | _) <;> rfl

/-- The alias of an entry is what the entry says. -/
theorem AliasEntry.complete_iff : e.complete? = some a ↔ e.Says a := by
  simp only [AliasEntry.complete?, Option.bind_eq_bind, Option.bind_eq_some_iff, filled_iff,
    AliasKind.ofName_iff, Option.pure_def, Option.some.injEq]
  constructor
  · rintro ⟨database, hdatabase, name, hname, label, hlabel, value, hvalue, s, hs, kind, hkind, rfl⟩
    exact ⟨hdatabase, hname, hlabel, hvalue, s, hs, hkind⟩
  · rintro ⟨hdatabase, hname, hlabel, hvalue, s, hs, hkind⟩
    exact ⟨_, hdatabase, _, hname, _, hlabel, _, hvalue, s, hs, _, hkind, rfl⟩

theorem AliasEntry.Says.unique {b : Alias} (ha : e.Says a) (hb : e.Says b) : a = b :=
  Option.some.inj ((complete_iff.mpr ha).symm.trans (complete_iff.mpr hb))

/-- An entry says something exactly if nothing is missing in it. -/
theorem AliasEntry.exists_says_iff : (∃ a, e.Says a) ↔ e.IsComplete := by
  constructor
  · rintro ⟨a, hdatabase, hname, hlabel, hvalue, s, hs, hkind⟩
    have hfilled {s : Option String} {t : String} (h : Fills s t) : IsFilled s :=
      isSome_filled_iff.mp (Option.isSome_of_mem (filled_iff.mpr h))
    exact ⟨hfilled hdatabase, hfilled hname, hfilled hlabel, hfilled hvalue, s, _, hs, hkind⟩
  · rintro ⟨hdatabase, hname, hlabel, hvalue, s, kind, hs, hkind⟩
    have hfills {s : Option String} (h : IsFilled s) : ∃ t, Fills s t := by
      obtain ⟨t, ht⟩ := Option.isSome_iff_exists.mp (isSome_filled_iff.mpr h)
      exact ⟨t, filled_iff.mp ht⟩
    obtain ⟨database, hdatabase⟩ := hfills hdatabase
    obtain ⟨name, hname⟩ := hfills hname
    obtain ⟨label, hlabel⟩ := hfills hlabel
    obtain ⟨value, hvalue⟩ := hfills hvalue
    exact ⟨⟨database, name, label, value, kind⟩, hdatabase, hname, hlabel, hvalue, s, hs, hkind⟩

end Complete

/-! ## Kept aliases -/

namespace AliasIndex

variable {kept new : List Alias}

/-- No two aliases have one value. -/
def IsUnambiguous (aliases : List Alias) : Prop := (aliases.map Alias.value).Nodup

/-- An alias whose value is taken changes nothing. -/
theorem keep_of_mem (h : a.value ∈ kept.map Alias.value) : keep kept a = kept := by
  obtain ⟨b, hb, hvalue⟩ := List.mem_map.mp h
  exact if_pos (List.any_eq_true.mpr ⟨b, hb, by simpa using hvalue⟩)

/-- An alias of a new value is the last one. -/
theorem keep_of_not_mem (h : a.value ∉ kept.map Alias.value) : keep kept a = kept ++ [a] := by
  refine if_neg fun hany => h ?_
  obtain ⟨b, hb, hvalue⟩ := List.any_eq_true.mp hany
  exact List.mem_map.mpr ⟨b, hb, by simpa using hvalue⟩

theorem isUnambiguous_keep (h : IsUnambiguous kept) (a : Alias) : IsUnambiguous (keep kept a) := by
  by_cases htaken : a.value ∈ kept.map Alias.value
  · rwa [keep_of_mem htaken]
  · rw [keep_of_not_mem htaken, IsUnambiguous, List.map_append, List.map_singleton,
      ← List.concat_eq_append]
    exact List.Nodup.concat htaken h

theorem isUnambiguous_foldl (h : IsUnambiguous kept) (new : List Alias) :
    IsUnambiguous (new.foldl keep kept) := by
  induction new generalizing kept with
  | nil => exact h
  | cons a new ih => exact ih (isUnambiguous_keep h a)

theorem mem_of_mem_keep {b : Alias} (h : b ∈ keep kept a) : b ∈ kept ∨ b = a := by
  by_cases htaken : a.value ∈ kept.map Alias.value
  · exact .inl (keep_of_mem htaken ▸ h)
  · rw [keep_of_not_mem htaken] at h
    exact (List.mem_append.mp h).imp_right List.mem_singleton.mp

theorem mem_of_mem_foldl (h : a ∈ new.foldl keep kept) : a ∈ kept ∨ a ∈ new := by
  induction new generalizing kept with
  | nil => exact .inl h
  | cons b new ih =>
    rcases ih h with h | h
    · rcases mem_of_mem_keep h with h | rfl
      · exact .inl h
      · exact .inr List.mem_cons_self
    · exact .inr (List.mem_cons_of_mem _ h)

variable {enabled : Bool} {entries : List AliasEntry}

theorem isUnambiguous_nil : IsUnambiguous [] := List.nodup_nil

theorem isUnambiguous_ofEntries (enabled : Bool) (entries : List AliasEntry) :
    IsUnambiguous (ofEntries enabled entries).aliases :=
  isUnambiguous_foldl isUnambiguous_nil _

/-- An alias is kept for an entry that says it. -/
theorem exists_says_of_mem (h : a ∈ (ofEntries enabled entries).aliases) :
    ∃ e ∈ entries, e.Says a := by
  rcases mem_of_mem_foldl h with h | h
  · exact absurd h List.not_mem_nil
  · obtain ⟨e, he, hcomplete⟩ := List.mem_filterMap.mp h
    exact ⟨e, he, AliasEntry.complete_iff.mp hcomplete⟩

theorem value_ne_empty_of_mem (h : a ∈ (ofEntries enabled entries).aliases) : a.value ≠ "" := by
  obtain ⟨e, -, he⟩ := exists_says_of_mem h
  exact he.value.ne_empty

theorem find_value_of_mem {aliases : List Alias} (hone : IsUnambiguous aliases) (h : a ∈ aliases) :
    aliases.find? (·.value = a.value) = some a := by
  induction aliases with
  | nil => exact absurd h List.not_mem_nil
  | cons b aliases ih =>
    obtain ⟨hfresh, hrest⟩ := List.nodup_cons.mp hone
    rcases List.mem_cons.mp h with rfl | h
    · exact List.find?_cons_of_pos (by simp)
    · have hne : ¬ b.value = a.value := fun heq => hfresh (heq ▸ List.mem_map_of_mem h)
      rw [List.find?_cons_of_neg (by simpa using hne)]
      exact ih hrest h

/-- A value finds the alias in use that has it, and nothing without one. -/
theorem find_eq_some_iff {v : String} : (ofEntries enabled entries).find? v = some a ↔
    enabled = true ∧ a ∈ (ofEntries enabled entries).aliases ∧ a.value = v := by
  have hfind : (ofEntries enabled entries).find? v =
      if enabled then (ofEntries enabled entries).aliases.find? (·.value = v) else none := rfl
  rw [hfind]
  split_ifs with henabled
  · constructor
    · exact fun h => ⟨henabled, List.mem_of_find?_eq_some h, by simpa using List.find?_some h⟩
    · rintro ⟨-, h, rfl⟩
      exact find_value_of_mem (isUnambiguous_ofEntries enabled entries) h
  · simp [henabled]

/-- The value of an alias in use finds that alias. -/
theorem find_of_mem (h : a ∈ (ofEntries true entries).aliases) :
    (ofEntries true entries).find? a.value = some a :=
  find_eq_some_iff.mpr ⟨rfl, h, rfl⟩

/-! ## Options -/

variable {x : AliasIndex} {c : Cluster} {db : Database} {database : String} {o : Choice}

theorem tableChoices_of_database (h : c.database? database = some db) :
    x.tableChoices c database =
      if x.enabled then x.choicesIn db database fun _ => true
      else (db.tables ++ db.views).map (Choice.plain ·.name .string) := by
  rw [tableChoices, h]

theorem functionChoices_of_database (h : c.database? database = some db) :
    x.functionChoices c database =
      if x.enabled then x.choicesIn db database (·.kind = .function)
      else db.functions.map (Choice.plain ·.name .function) := by
  rw [functionChoices, h]

/-- Nothing is offered for a database that is missing. -/
theorem choices_of_missing (h : c.database? database = none) :
    x.tableChoices c database = [] ∧ x.functionChoices c database = [] := by
  rw [tableChoices, functionChoices, h]
  exact ⟨rfl, rfl⟩

/-- An option of an alias is one of an alias of the database whose object exists. -/
theorem mem_choicesIn {wanted : Alias → Bool} (h : o ∈ x.choicesIn db database wanted) :
    ∃ a ∈ x.aliases, a.choice = o ∧ a.database = database ∧ a.kind.isIn db a.name = true := by
  obtain ⟨a, ha, hchoice⟩ := List.mem_map.mp h
  obtain ⟨hmem, hkept⟩ := List.mem_filter.mp ha
  simp only [Bool.and_eq_true, decide_eq_true_eq] at hkept
  exact ⟨a, hmem, hchoice, hkept.1.1, hkept.2⟩

end AliasIndex

end Kusto.Schema
