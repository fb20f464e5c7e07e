import Kusto.Proofs.Builder.SourceColumns
import Kusto.Proofs.Schema.AliasIndex

/-!
# Offered sources — whether what is offered can be used

Each source that is offered for a database leads to an object of that database: directly, or
through the alias that it stands for.  So the columns of an option are found when the editor asks
for them, and when a query selects it; a query without aliases must give the source a name and run
in that database, since an empty source is none and an empty database means the default one.
-/

namespace Kusto.Builder

open Schema (Alias AliasEntry AliasIndex Collection Database)
open Stored (Query)

variable {b : Builder} {q : Query} {database : String} {o : Choice}

/-! ## Where an option leads -/

section Offered

theorem isSome_find_of_mem {α : Type} {name : α → String} {xs : List α} {x : α} (h : x ∈ xs) :
    (xs.find? (name · = name x)).isSome := by
  rw [List.find?_isSome]
  exact ⟨x, h, decide_eq_true rfl⟩

/-- The option is one of the sources or of the functions of the database. -/
def Offers (b : Builder) (database : String) (o : Choice) : Prop :=
  o ∈ b.tableChoices database ∨ o ∈ b.functionChoices database

theorem exists_database_of_offers (h : Offers b database o) :
    ∃ db, b.schema.database? database = some db := by
  cases hdb : b.schema.database? database with
  | none =>
    obtain ⟨htables, hfunctions⟩ := AliasIndex.choices_of_missing (x := b.aliases) hdb
    rw [Offers, tableChoices, functionChoices, htables, hfunctions] at h
    exact absurd h (by simp)
  | some db => exact ⟨db, rfl⟩

/-- With aliases in use an option stands for one whose object exists. -/
theorem exists_alias_of_offers (hused : b.aliases.enabled = true) {db : Database}
    (hdb : b.schema.database? database = some db) (h : Offers b database o) :
    ∃ a ∈ b.aliases.aliases, a.choice = o ∧ a.database = database ∧
      a.kind.isIn db a.name = true := by
  rw [Offers, tableChoices, functionChoices, AliasIndex.tableChoices_of_database hdb,
    AliasIndex.functionChoices_of_database hdb, if_pos hused, if_pos hused] at h
  rcases h with h | h
  · exact AliasIndex.mem_choicesIn h
  · exact AliasIndex.mem_choicesIn h

/-- Without aliases an option names an object of the database. -/
theorem exists_held_of_offers (hunused : b.aliases.enabled = false) {db : Database}
    (hdb : b.schema.database? database = some db) (h : Offers b database o) :
    ∃ c, (db.held o.value c).isSome := by
  have hnot : ¬ b.aliases.enabled = true := by simp [hunused]
  rw [Offers, tableChoices, functionChoices, AliasIndex.tableChoices_of_database hdb,
    AliasIndex.functionChoices_of_database hdb, if_neg hnot, if_neg hnot] at h
  rcases h with h | h
  · obtain ⟨t, ht, rfl⟩ := List.mem_map.mp h
    rcases List.mem_append.mp ht with ht | ht
    · exact ⟨.tables, Option.isSome_map.trans (isSome_find_of_mem ht)⟩
    · exact ⟨.views, Option.isSome_map.trans (isSome_find_of_mem ht)⟩
  · obtain ⟨f, hf, rfl⟩ := List.mem_map.mp h
    exact ⟨.functions, Option.isSome_map.trans (isSome_find_of_mem hf)⟩

end Offered

/-! ## Using an option -/

section Used

/-- The database and the name under which the columns of a source are looked for. -/
def address (b : Builder) (database source : String) : String × String :=
  match b.aliases.find? source with
  | some a => (a.database, a.name)
  | none => (database, source)

theorem sourceColumns_eq (b : Builder) (database source : String) :
    b.sourceColumns database (some source) (b.aliases.find? source) =
      b.schema.columnsOf (b.address database source).1 (b.address database source).2 := by
  unfold sourceColumns address
  cases b.aliases.find? source <;> rfl

/-- The source of the query is the value of the option.  Without aliases it has a name, and the
query runs in the database for which it was offered. -/
structure Selects (b : Builder) (q : Query) (database : String) (o : Choice) : Prop where
  source : q.draft.source.map Property.name = some o.value
  direct : b.aliases.enabled = false → o.value ≠ "" ∧ b.databaseOf q = database

/-- The object under the address of the option is found, and the columns that the editor shows for
the option and those of every query that selects it are the columns of that object. -/
def IsResolved (b : Builder) (database : String) (o : Choice) : Prop :=
  ∃ cs, b.schema.resolve (b.address database o.value).1 (b.address database o.value).2 = .ok cs ∧
    b.columnChoices database o.value = cs.choices ∧
    ∀ q, Selects b q database o → (b.contextOf q).columns = cs

/-- The option can be used: it is resolved and, with aliases in use, it is the option of an alias
of the database, whose object is there and of the kind of the alias. -/
structure IsUsable (b : Builder) (database : String) (o : Choice) : Prop where
  resolved : IsResolved b database o
  behindAlias : b.aliases.enabled = true → ∃ a, b.aliases.find? o.value = some a ∧
    a.database = database ∧ a.label = o.label ∧
    ∃ db, b.schema.database? database = some db ∧ a.kind.isIn db a.name = true

theorem sourceName_of_selects (h : Selects b q database o) (hne : o.value ≠ "") :
    q.draft.sourceName? = some o.value := by
  obtain ⟨p, hp, hname⟩ := Option.map_eq_some_iff.mp h.source
  simp [Draft.sourceName?, hp, hname, hne]

/-- The columns of a query are those under the address of its source. -/
theorem columns_of_sourceName (hname : q.draft.sourceName? = some o.value) :
    (b.contextOf q).columns = b.schema.columnsOf (b.address (b.databaseOf q) o.value).1
      (b.address (b.databaseOf q) o.value).2 := by
  rw [columns_contextOf, hname]
  exact sourceColumns_eq b (b.databaseOf q) o.value

/-- An option is resolved if the same object of the database stands behind it for the editor and
for the queries that select it. -/
theorem isResolved_of_held {name : String} {db : Database} {c : Collection}
    (hdb : b.schema.database? database = some db) (hheld : (db.held name c).isSome)
    (haddress : b.address database o.value = (database, name))
    (hselected : ∀ q, Selects b q database o → o.value ≠ "" ∧
      b.address (b.databaseOf q) o.value = (database, name)) : IsResolved b database o := by
  refine ⟨b.schema.columnsOf database name, ?_, ?_, fun q hq => ?_⟩
  · rw [haddress]
    exact Schema.Cluster.resolve_of_held hdb hheld
  · rw [columnChoices, sourceColumns_eq, haddress]
  · obtain ⟨hvalue, hquery⟩ := hselected q hq
    rw [columns_of_sourceName (sourceName_of_selects hq hvalue), hquery]

end Used

/-- **Every source that is offered can be used**, whatever the cluster, the database and the
configured aliases, in use or not. -/
theorem isUsable_of_offers (b : Builder) (enabled : Bool) (entries : List AliasEntry)
    (database : String) (o : Choice) (haliases : b.aliases = AliasIndex.ofEntries enabled entries)
    (h : Offers b database o) : IsUsable b database o := by
  obtain ⟨db, hdb⟩ := exists_database_of_offers h
  cases henabled : b.aliases.enabled with
  | false =>
    have haddress : ∀ current, b.address current o.value = (current, o.value) := by
      intro current
      simp [address, AliasIndex.find?, henabled]
    obtain ⟨c, hheld⟩ := exists_held_of_offers henabled hdb h
    refine ⟨isResolved_of_held hdb hheld (haddress database) fun q hq => ?_,
      fun hused => absurd hused (by simp [henabled])⟩
    obtain ⟨hvalue, hcurrent⟩ := hq.direct henabled
    exact ⟨hvalue, by rw [haddress, hcurrent]⟩
  | true =>
    -- with aliases in use nothing else is offered, and the value leads back to its alias
    obtain ⟨a, ha, rfl, rfl, hin⟩ := exists_alias_of_offers henabled hdb h
    have htrue : enabled = true := by
      rw [haliases] at henabled
      exact henabled
    rw [haliases, htrue] at ha
    have hfind : b.aliases.find? a.value = some a := by
      rw [haliases, htrue]
      exact AliasIndex.find_of_mem ha
    have haddress : ∀ current, b.address current a.value = (a.database, a.name) := by
      intro current
      simp [address, hfind]
    have hheld : (db.held a.name a.kind.collection).isSome := by
      rw [← Database.isIn_eq_isSome_held]
      exact hin
    exact ⟨isResolved_of_held hdb hheld (haddress a.database) fun q _ =>
        ⟨AliasIndex.value_ne_empty_of_mem ha, haddress _⟩,
      fun _ => ⟨a, hfind, rfl, rfl, db, hdb, hin⟩⟩

/-- An alias of a table in a cluster that has it. -/
def stormBuilder : Builder where
  schema := ⟨[{ name := "Samples", tables := [⟨"StormEvents", [⟨"State", "string"⟩]⟩] }]⟩
  aliases := AliasIndex.ofEntries true
    [⟨some "Samples", some "StormEvents", some "Storms", some " storms ", some "table"⟩,
      ⟨some "Samples", some "Other", some "Others", some "storms", some "table"⟩]

theorem isUsable_storms :
    Offers stormBuilder "Samples" ⟨"Storms", "storms", .string⟩ ∧
      IsUsable stormBuilder "Samples" ⟨"Storms", "storms", .string⟩ := by
  have h : Offers stormBuilder "Samples" ⟨"Storms", "storms", .string⟩ := .inl (by decide)
  exact ⟨h, isUsable_of_offers stormBuilder true _ "Samples" _ rfl h⟩

/-- A cluster with a database and a table whose names are empty, and another default database. -/
def unnamedBuilder : Builder where
  schema := ⟨[{ name := "", tables := [⟨"Events", [⟨"Seen", "datetime"⟩]⟩] },
    { name := "Samples", tables := [⟨"", [⟨"Stored", "datetime"⟩]⟩] }]⟩
  defaults := { database := "Samples" }

/-- A query of a table of text type. -/
def tableQuery (database name : String) : Query where
  database
  draft := Draft.ofTable name

/-- The table of the database without a name is offered, but a query of it runs in the default
database; and the table without a name is offered, but a query of it has no source.  Neither finds
the columns that the editor shows. -/
theorem not_columns_unnamed :
    (⟨"Events", "Events", .string⟩ ∈ unnamedBuilder.tableChoices "" ∧
      unnamedBuilder.columnChoices "" "Events" = [⟨"Seen", "Seen", .dateTime⟩] ∧
      unnamedBuilder.schema.resolve (unnamedBuilder.databaseOf (tableQuery "" "Events")) "Events" =
        .error (.table "Samples" "Events") ∧
      (unnamedBuilder.contextOf (tableQuery "" "Events")).columns = []) ∧
    (⟨"", "", .string⟩ ∈ unnamedBuilder.tableChoices "Samples" ∧
      unnamedBuilder.columnChoices "Samples" "" = [⟨"Stored", "Stored", .dateTime⟩] ∧
      (unnamedBuilder.contextOf (tableQuery "Samples" "")).columns = []) := by
  decide

end Kusto.Builder
