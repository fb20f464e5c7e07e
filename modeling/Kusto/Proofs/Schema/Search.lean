import Kusto.Schema.Alias
import Mathlib.Tactic.ByContra
import Mathlib.Tactic.Push

/-!
# Searching a database — which object a name finds

The columns of a name are looked for in four collections in a fixed order, whatever kind of object
is meant.  They are those of the object that is meant unless the name is shadowed: held by another
collection that comes earlier, or held by another one alone.
-/

namespace Kusto.Schema

/-! ## Collections -/

/-- A collection of objects with columns. -/
inductive Collection where
  | tables
  | views
  | externals
  | functions
  deriving DecidableEq

/-- The place of a collection in the search. -/
def Collection.rank : Collection → Nat
  | tables => 0
  | views => 1
  | externals => 2
  | functions => 3

theorem Collection.eq_of_rank_eq {c e : Collection} (h : c.rank = e.rank) : c = e := by
  cases c <;> cases e <;> simp [rank] at h ⊢

/-- The collection in which the objects of a kind are kept. -/
def AliasKind.collection : AliasKind → Collection
  | table => .tables
  | view => .views
  | function => .functions

namespace Database

variable {db : Database} {name : String} {own : Collection}

/-- The columns of the first object of that name in a collection. -/
def held (db : Database) (name : String) : Collection → Option Columns
  | .tables => (db.table? name).map Table.columns
  | .views => (db.view? name).map Table.columns
  | .externals => (db.external? name).map Table.columns
  | .functions => (db.function? name).map Function.outputs

theorem isIn_eq_isSome_held (kind : AliasKind) (db : Database) (name : String) :
    kind.isIn db name = (db.held name kind.collection).isSome := by
  cases kind <;> simp [AliasKind.isIn, AliasKind.collection, held]

/-- The columns of a name are those that the first collection to hold it has. -/
theorem columns_eq (db : Database) (name : String) :
    db.columns? name = (db.held name .tables).or ((db.held name .views).or
      ((db.held name .externals).or (db.held name .functions))) := by
  simp only [columns?, held, Option.map_or, Option.or_assoc]

/-- The collection is the first of the search to hold the name. -/
structure Finds (db : Database) (name : String) (c : Collection) : Prop where
  holds : (db.held name c).isSome
  before : ∀ e : Collection, e.rank < c.rank → db.held name e = none

/-- Columns that are found are those of the first collection to hold the name. -/
theorem exists_finds {cs : Columns} (h : db.columns? name = some cs) :
    ∃ c, db.Finds name c ∧ db.held name c = some cs := by
  have finds : ∀ c : Collection, db.held name c = some cs →
      (∀ e : Collection, e.rank < c.rank → db.held name e = none) →
      ∃ c, db.Finds name c ∧ db.held name c = some cs :=
    fun c hheld hbefore => ⟨c, ⟨by simp [hheld], hbefore⟩, hheld⟩
  -- in the order of the search: a collection is asked only if those before it hold nothing
  rw [columns_eq, Option.or_eq_some_iff] at h
  rcases h with ht | ⟨ht, h⟩
  · exact finds .tables ht fun e he => absurd he (Nat.not_lt_zero _)
  rw [Option.or_eq_some_iff] at h
  rcases h with hv | ⟨hv, h⟩
  · refine finds .views hv fun e he => ?_
    cases e with
    | tables => exact ht
    | views | externals | functions => exact absurd he (by decide)
  rw [Option.or_eq_some_iff] at h
  rcases h with hx | ⟨hx, hf⟩
  · refine finds .externals hx fun e he => ?_
    cases e with
    | tables => exact ht
    | views => exact hv
    | externals | functions => exact absurd he (by decide)
  · refine finds .functions hf fun e he => ?_
    cases e with
    | tables => exact ht
    | views => exact hv
    | externals => exact hx
    | functions => exact absurd he (by decide)

/-- Where no columns are found no collection holds the name. -/
theorem held_of_columns_eq_none (h : db.columns? name = none) (c : Collection) :
    db.held name c = none := by
  simp only [columns_eq, Option.or_eq_none_iff] at h
  obtain ⟨ht, hv, he, hf⟩ := h
  cases c with
  | tables => exact ht
  | views => exact hv
  | externals => exact he
  | functions => exact hf

theorem isSome_columns_of_held {c : Collection} (h : (db.held name c).isSome) :
    (db.columns? name).isSome := by
  by_contra hnone
  rw [Option.not_isSome_iff_eq_none] at hnone
  rw [held_of_columns_eq_none hnone c] at h
  exact absurd h (by simp)

/-- Nothing shadows the name in its collection: another collection holds it only if this one does
too and comes first. -/
def IsUnshadowed (db : Database) (name : String) (own : Collection) : Prop :=
  ∀ other, other ≠ own → (db.held name other).isSome →
    (db.held name own).isSome ∧ own.rank < other.rank

theorem columns_of_isUnshadowed (h : db.IsUnshadowed name own) :
    db.columns? name = db.held name own := by
  cases hcs : db.columns? name with
  | none => exact (held_of_columns_eq_none hcs own).symm
  | some cs =>
    obtain ⟨c, hfinds, hheld⟩ := exists_finds hcs
    by_cases hown : c = own
    · rw [← hown, hheld]
    · obtain ⟨hsome, hlt⟩ := h c hown hfinds.holds
      rw [hfinds.before own hlt] at hsome
      exact absurd hsome (by simp)

/-- The columns of a shadowed name are those of an object in another collection, the first of the
search to hold the name. -/
theorem exists_of_not_isUnshadowed (h : ¬ db.IsUnshadowed name own) :
    ∃ other, other ≠ own ∧ db.Finds name other ∧ db.columns? name = db.held name other := by
  unfold IsUnshadowed at h
  push Not at h
  obtain ⟨other, hne, hother, hbehind⟩ := h
  obtain ⟨cs, hcs⟩ := Option.isSome_iff_exists.mp (isSome_columns_of_held hother)
  obtain ⟨c, hfinds, hheld⟩ := exists_finds hcs
  refine ⟨c, ?_, hfinds, hcs.trans hheld.symm⟩
  rintro rfl
  have hle := hbehind hfinds.holds
  have hrank : other.rank ≠ c.rank := fun heq => hne (Collection.eq_of_rank_eq heq)
  rw [hfinds.before other (by omega)] at hother
  exact absurd hother (by simp)

end Database

/-! ## Clusters -/

namespace Cluster

/-- The columns that a collection of a database has under a name, none if it does not hold it. -/
def heldColumns (c : Cluster) (database name : String) (own : Collection) : Columns :=
  ((c.database? database).bind fun db => db.held name own).getD []

/-- Nothing shadows the name in its collection of the database, if there is such a database. -/
def IsUnshadowed (c : Cluster) (database name : String) (own : Collection) : Prop :=
  ∀ db, c.database? database = some db → db.IsUnshadowed name own

variable {c : Cluster} {database name : String}

theorem columnsOf_eq (c : Cluster) (database name : String) :
    c.columnsOf database name =
      ((c.database? database).bind fun db => db.columns? name).getD [] := by
  unfold columnsOf resolve
  cases c.database? database with
  | none => rfl
  | some db =>
    dsimp only [Option.bind_some]
    cases db.columns? name <;> rfl

theorem columnsOf_of_isUnshadowed {own : Collection}
    (h : c.IsUnshadowed database name own) :
    c.columnsOf database name = c.heldColumns database name own := by
  rw [columnsOf_eq, heldColumns]
  cases hdb : c.database? database with
  | none => rfl
  | some db =>
    rw [Option.bind_some, Option.bind_some, Database.columns_of_isUnshadowed (h db hdb)]

/-- The columns of a shadowed name are those of an object in another collection, the first of the
search to hold the name. -/
theorem exists_heldColumns_of_not_isUnshadowed {own : Collection}
    (h : ¬ c.IsUnshadowed database name own) :
    ∃ other, other ≠ own ∧ (∃ db, c.database? database = some db ∧ db.Finds name other) ∧
      c.columnsOf database name = c.heldColumns database name other := by
  unfold IsUnshadowed at h
  push Not at h
  obtain ⟨db, hdb, hshadow⟩ := h
  obtain ⟨other, hne, hfinds, hcolumns⟩ := Database.exists_of_not_isUnshadowed hshadow
  refine ⟨other, hne, ⟨db, hdb, hfinds⟩, ?_⟩
  rw [columnsOf_eq, heldColumns, hdb, Option.bind_some, Option.bind_some, hcolumns]

/-- A name that a collection of the database holds is found. -/
theorem resolve_of_held {db : Database} (hdb : c.database? database = some db) {own : Collection}
    (h : (db.held name own).isSome) : c.resolve database name = .ok (c.columnsOf database name) := by
  obtain ⟨cs, hcs⟩ := Option.isSome_iff_exists.mp (Database.isSome_columns_of_held h)
  have hresolve : c.resolve database name = .ok cs := by
    unfold resolve
    rw [hdb]
    dsimp only
    rw [hcs]
  rw [columnsOf, hresolve]

end Cluster

end Kusto.Schema
