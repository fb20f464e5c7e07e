import Kusto.Schema.Document
import Mathlib.Data.List.Forall2
import Mathlib.Data.List.Nodup

/-!
# Schema documents — what is read, and that it is what was written

`IsCluster j c`: the document `j` describes the cluster `c`.  A record has each known field at most
once, be it an object or a list of its fields in their order; a collection describes its objects in
document order, a repeated key as often as it stands there, and an object bears its own name or else
its key.  A document is read exactly if it describes
a cluster, and as that cluster (`Cluster.ofJson_iff`); what is written for a cluster describes it,
so that it is read back (`document_laws`).
-/

open Kusto.Json (Members list? text?)

namespace Kusto.Schema

/-! ## Descriptions -/

section Descriptions

variable {α : Type}

/-- The value is a text. -/
def IsText (j : Json) (s : String) : Prop := j = .str s

/-- The value is a list that describes the items, one by one. -/
def IsList (R : Json → α → Prop) (j : Json) (as : List α) : Prop :=
  ∃ xs, j = .arr xs ∧ List.Forall₂ R xs as

/-- The field describes its value; a field that is missing has a default. -/
inductive HasField (ms : Members) (key : String) (standard : α) (R : Json → α → Prop) : α → Prop
  | missing (h : ms.lookup key = none) : HasField ms key standard R standard
  | present {v : Json} {a : α} (h : ms.lookup key = some v) (hv : R v a) :
    HasField ms key standard R a

/-- None of the fields `known` is repeated. -/
def IsUnrepeated (known : List String) (ms : Members) : Prop :=
  ∀ k ∈ known, (ms.map Prod.fst).count k ≤ 1

/-- The value is a record with the fields `ms`: an object, or a list of their values in the order of
`known`, from which the last may be missing.  None of the fields `known` is repeated. -/
def IsRecord (known : List String) (j : Json) (ms : Members) : Prop :=
  (j = .obj ms ∨ j = .arr (ms.map Prod.snd) ∧ ms.map Prod.fst <+: known) ∧ IsUnrepeated known ms

/-- The value is an object whose members describe the items, each with its key and in their order;
`null` describes no items. -/
def IsCollection (R : String → Json → α → Prop) (j : Json) (as : List α) : Prop :=
  j = .null ∧ as = [] ∨ ∃ ms, j = .obj ms ∧ List.Forall₂ (fun m => R m.1 m.2) ms as

/-- The name of an object is its own, or else its key. -/
def IsName (key own name : String) : Prop := (own ≠ "" → name = own) ∧ (own = "" → name = key)

/-- The value describes a column, whose name must not be missing. -/
inductive IsColumn (j : Json) (c : Column) : Prop
  | intro {ms : Members} (h : IsRecord ["Name", "CslType"] j ms)
    (hname : ms.lookup "Name" = some (.str c.name))
    (htype : HasField ms "CslType" "" IsText c.type)

/-- The member of a collection describes a table, a view or an external table. -/
inductive IsTable (key : String) (j : Json) (t : Table) : Prop
  | intro {ms : Members} {own : String} (h : IsRecord ["Name", "OrderedColumns"] j ms)
    (hown : HasField ms "Name" "" IsText own) (hname : IsName key own t.name)
    (hcolumns : HasField ms "OrderedColumns" [] (IsList IsColumn) t.columns)

/-- The member of a collection describes a function. -/
inductive IsFunction (key : String) (j : Json) (f : Function) : Prop
  | intro {ms : Members} {own : String}
    (h : IsRecord ["Name", "Body", "InputParameters", "OutputColumns"] j ms)
    (hown : HasField ms "Name" "" IsText own) (hname : IsName key own f.name)
    (hbody : HasField ms "Body" "" IsText f.body)
    (hinputs : HasField ms "InputParameters" [] (IsList IsColumn) f.inputs)
    (houtputs : HasField ms "OutputColumns" [] (IsList IsColumn) f.outputs)

/-- The member of a collection describes a database. -/
inductive IsDatabase (key : String) (j : Json) (db : Database) : Prop
  | intro {ms : Members} {own : String} (h : IsRecord Database.fieldNames j ms)
    (hown : HasField ms "Name" "" IsText own) (hname : IsName key own db.name)
    (htables : HasField ms "Tables" [] (IsCollection IsTable) db.tables)
    (hviews : HasField ms "MaterializedViews" [] (IsCollection IsTable) db.views)
    (hfunctions : HasField ms "Functions" [] (IsCollection IsFunction) db.functions)
    (hexternals : HasField ms "ExternalTables" [] (IsCollection IsTable) db.externals)

/-- The document describes a cluster. -/
inductive IsCluster (j : Json) (c : Cluster) : Prop
  | intro {ms : Members} (h : IsRecord ["Databases"] j ms)
    (hdatabases : HasField ms "Databases" [] (IsCollection IsDatabase) c.databases)

end Descriptions

/-! ## Readers of fields -/

section Fields

variable {α β : Type} {read : Json → Option α} {R : Json → α → Prop} {ms : Members}

/-- Items are read one by one, in their order. -/
theorem mapM_iff {f : β → Option α} {S : β → α → Prop} (h : ∀ x a, f x = some a ↔ S x a)
    {xs : List β} {as : List α} : xs.mapM f = some as ↔ List.Forall₂ S xs as := by
  induction xs generalizing as with
  | nil =>
    rw [List.mapM_nil, List.forall₂_nil_left_iff]
    exact ⟨fun h => (Option.some.inj h).symm, fun h => congrArg some h.symm⟩
  | cons x xs ih =>
    rw [List.mapM_cons, List.forall₂_cons_left_iff]
    constructor
    · intro hread
      obtain ⟨a, ha, hread⟩ := Option.bind_eq_some_iff.mp hread
      obtain ⟨as, has, hread⟩ := Option.bind_eq_some_iff.mp hread
      exact ⟨a, as, (h x a).mp ha, ih.mp has, (Option.some.inj hread).symm⟩
    · rintro ⟨a, as, ha, has, rfl⟩
      rw [(h x a).mpr ha, ih.mpr has]
      rfl

theorem text_iff {j : Json} {s : String} : text? j = some s ↔ IsText j s := by
  cases j <;> simp [text?, IsText]

theorem list_iff (hread : ∀ j a, read j = some a ↔ R j a) {j : Json} {as : List α} :
    list? read j = some as ↔ IsList R j as := by
  cases j with
  | arr xs =>
    show xs.mapM read = some as ↔ _
    rw [mapM_iff hread]
    exact ⟨fun h => ⟨xs, rfl, h⟩, fun ⟨ys, hys, h⟩ => by rwa [Json.arr.inj hys]⟩
  | null | bool | num | str | obj => simp [list?, Json.items?, IsList]

theorem withDefault_iff (hread : ∀ j a, read j = some a ↔ R j a) {key : String}
    {standard a : α} :
    ms.withDefault key standard read = some a ↔ HasField ms key standard R a := by
  unfold Members.withDefault
  cases hfield : ms.lookup key with
  | none =>
    constructor
    · intro h
      rw [← Option.some.inj h]
      exact .missing hfield
    · rintro (h | ⟨h, -⟩)
      · rfl
      · exact absurd (hfield.symm.trans h) (by simp)
  | some v =>
    constructor
    · exact fun h => .present hfield ((hread v a).mp h)
    · rintro (h | ⟨h, hv⟩)
      · exact absurd (hfield.symm.trans h) (by simp)
      · rw [Option.some.inj (hfield.symm.trans h)]
        exact (hread _ a).mpr hv

theorem textField_iff {key s : String} :
    ms.text key = some s ↔ HasField ms key "" IsText s :=
  withDefault_iff fun _ _ => text_iff

theorem isUnrepeated_iff {known : List String} :
    isUnrepeated known ms ↔ IsUnrepeated known ms := by
  have hcount : ∀ k, (ms.map Prod.fst).count k = (ms.filter (·.1 = k)).length := by
    intro k
    rw [List.count, List.countP_map, List.countP_eq_length_filter]
    rfl
  simp only [isUnrepeated, IsUnrepeated, List.all_eq_true, decide_eq_true_eq, hcount]

/-- Names that are left over stand for nothing. -/
theorem zip_append_left {names rest : List String} {xs : List Json}
    (h : names.length = xs.length) : (names ++ rest).zip xs = names.zip xs := by
  have happend : (names ++ rest).zip (xs ++ []) = names.zip xs ++ rest.zip [] := List.zip_append h
  rwa [List.append_nil, List.zip_nil_right, List.append_nil] at happend

theorem zip_eq_iff {names : List String} {xs : List Json} (h : xs.length ≤ names.length) :
    names.zip xs = ms ↔ xs = ms.map Prod.snd ∧ ms.map Prod.fst <+: names := by
  constructor
  · rintro rfl
    -- names without an item drop out
    have htake : (names.take xs.length).length = xs.length := List.length_take_of_le h
    refine ⟨(List.map_snd_zip h).symm, ?_⟩
    rw [← List.take_append_drop xs.length names, zip_append_left htake,
      List.map_fst_zip (Nat.le_of_eq htake)]
    exact List.prefix_append _ _
  · rintro ⟨rfl, rest, rfl⟩
    rw [zip_append_left (by rw [List.length_map, List.length_map])]
    exact (List.zip_of_prod rfl rfl).symm

theorem record_iff {names : List String} {j : Json} :
    j.record? names = some ms ↔
      j = .obj ms ∨ j = .arr (ms.map Prod.snd) ∧ ms.map Prod.fst <+: names := by
  cases j with
  | arr xs =>
    show (if xs.length ≤ names.length then some (names.zip xs) else none) = some ms ↔ _
    constructor
    · intro h
      obtain ⟨hlength, hzip⟩ := Option.ite_none_right_eq_some.mp h
      obtain ⟨hxs, hnames⟩ := (zip_eq_iff hlength).mp (Option.some.inj hzip)
      exact .inr ⟨congrArg Json.arr hxs, hnames⟩
    · rintro (h | ⟨h, hnames⟩)
      · exact absurd h (by simp)
      · have hxs := Json.arr.inj h
        have hlength : xs.length ≤ names.length := by
          have hle := hnames.length_le
          rwa [List.length_map, ← List.length_map Prod.snd, ← hxs] at hle
        rw [if_pos hlength, (zip_eq_iff hlength).mpr ⟨hxs, hnames⟩]
  | obj ms => simp [Json.record?]
  | null | bool | num | str => simp [Json.record?]

theorem recordOf_iff {known : List String} {j : Json} :
    recordOf known j = some ms ↔ IsRecord known j ms := by
  rw [recordOf, Option.filter_eq_some_iff, isUnrepeated_iff, record_iff, IsRecord]

theorem collection_iff {read : String → Json → Option α} {R : String → Json → α → Prop}
    (hread : ∀ k j a, read k j = some a ↔ R k j a) {j : Json} {as : List α} :
    collection? read j = some as ↔ IsCollection R j as := by
  cases j with
  | obj ms =>
    show (ms.mapM fun m => read m.1 m.2) = some as ↔ _
    rw [mapM_iff fun m a => hread m.1 m.2 a]
    simp [IsCollection]
  | null => simp [collection?, IsCollection, eq_comm]
  | bool | num | str | arr => simp [collection?, IsCollection]

theorem named_iff {key own name : String} : name = named key own ↔ IsName key own name := by
  unfold named IsName
  by_cases h : own = "" <;> simp [h]

end Fields

/-! ## Reading -/

section Reading

variable {key : String} {j : Json}

theorem columnOfJson_iff {c : Column} : columnOfJson? j = some c ↔ IsColumn j c := by
  unfold columnOfJson?
  simp only [Option.bind_eq_bind, Option.bind_eq_some_iff, recordOf_iff, Members.required,
    text_iff, textField_iff, Option.some.injEq, pure]
  constructor
  · rintro ⟨ms, hrecord, name, ⟨_, hname, rfl⟩, type, htype, rfl⟩
    exact .intro hrecord hname htype
  · rintro ⟨hrecord, hname, htype⟩
    exact ⟨_, hrecord, _, ⟨_, hname, rfl⟩, _, htype, rfl⟩

theorem columnsOfJson_iff (j : Json) (cs : Columns) :
    columnsOfJson? j = some cs ↔ IsList IsColumn j cs :=
  list_iff fun _ _ => columnOfJson_iff

theorem Table.ofEntry_iff (key : String) (j : Json) (t : Table) :
    Table.ofEntry? key j = some t ↔ IsTable key j t := by
  unfold Table.ofEntry? Table.ofJson?
  simp only [Option.map_eq_some_iff, Option.bind_eq_bind, Option.bind_eq_some_iff, recordOf_iff,
    textField_iff, withDefault_iff columnsOfJson_iff, Option.some.injEq, pure]
  constructor
  · rintro ⟨_, ⟨ms, hrecord, own, hown, columns, hcolumns, rfl⟩, rfl⟩
    exact .intro hrecord hown (named_iff.mp rfl) hcolumns
  · rintro ⟨hrecord, hown, hname, hcolumns⟩
    obtain ⟨name, columns⟩ := t
    obtain rfl := named_iff.mpr hname
    exact ⟨_, ⟨_, hrecord, _, hown, _, hcolumns, rfl⟩, rfl⟩

theorem Function.ofEntry_iff (key : String) (j : Json) (f : Function) :
    Function.ofEntry? key j = some f ↔ IsFunction key j f := by
  unfold Function.ofEntry? Function.ofJson?
  simp only [Option.map_eq_some_iff, Option.bind_eq_bind, Option.bind_eq_some_iff, recordOf_iff,
    textField_iff, withDefault_iff columnsOfJson_iff, Option.some.injEq, pure]
  constructor
  · rintro ⟨_, ⟨ms, hrecord, own, hown, body, hbody, inputs, hinputs, outputs, houtputs, rfl⟩, rfl⟩
    exact .intro hrecord hown (named_iff.mp rfl) hbody hinputs houtputs
  · rintro ⟨hrecord, hown, hname, hbody, hinputs, houtputs⟩
    obtain ⟨name, body, inputs, outputs⟩ := f
    obtain rfl := named_iff.mpr hname
    exact ⟨_, ⟨_, hrecord, _, hown, _, hbody, _, hinputs, _, houtputs, rfl⟩, rfl⟩

theorem Database.ofEntry_iff (key : String) (j : Json) (db : Database) :
    Database.ofEntry? key j = some db ↔ IsDatabase key j db := by
  have htables (j : Json) (ts : List Table) :
      collection? Table.ofEntry? j = some ts ↔ IsCollection IsTable j ts :=
    collection_iff Table.ofEntry_iff
  have hfunctions (j : Json) (fs : List Function) :
      collection? Function.ofEntry? j = some fs ↔ IsCollection IsFunction j fs :=
    collection_iff Function.ofEntry_iff
  unfold Database.ofEntry? Database.ofJson?
  simp only [Option.map_eq_some_iff, Option.bind_eq_bind, Option.bind_eq_some_iff, recordOf_iff,
    textField_iff, withDefault_iff htables, withDefault_iff hfunctions, Option.some.injEq, pure]
  constructor
  · rintro ⟨_, ⟨ms, hrecord, own, hown, tables, htables, views, hviews, functions, hfunctions,
      externals, hexternals, rfl⟩, rfl⟩
    exact .intro hrecord hown (named_iff.mp rfl) htables hviews hfunctions hexternals
  · rintro ⟨hrecord, hown, hname, htables, hviews, hfunctions, hexternals⟩
    obtain ⟨name, tables, views, functions, externals⟩ := db
    obtain rfl := named_iff.mpr hname
    exact ⟨_, ⟨_, hrecord, _, hown, _, htables, _, hviews, _, hfunctions, _, hexternals, rfl⟩, rfl⟩

/-- **A document is read exactly if it describes a cluster**, and as that cluster. -/
theorem Cluster.ofJson_iff (c : Cluster) : Cluster.ofJson? j = some c ↔ IsCluster j c := by
  have hdatabases (j : Json) (dbs : List Database) :
      collection? Database.ofEntry? j = some dbs ↔ IsCollection IsDatabase j dbs :=
    collection_iff Database.ofEntry_iff
  unfold Cluster.ofJson?
  simp only [Option.bind_eq_bind, Option.bind_eq_some_iff, recordOf_iff,
    withDefault_iff hdatabases, Option.some.injEq, pure]
  constructor
  · rintro ⟨ms, hrecord, databases, hdatabases, rfl⟩
    exact .intro hrecord hdatabases
  · rintro ⟨hrecord, hdatabases⟩
    exact ⟨_, hrecord, _, hdatabases, rfl⟩

end Reading

/-! ## Writing -/

section Writing

variable {α : Type}

/-- An object with just the known fields, each once. -/
theorem isRecord_obj {known : List String} {ms : Members} (hkeys : ms.map Prod.fst = known)
    (hnodup : known.Nodup) : IsRecord known (.obj ms) ms := by
  refine ⟨.inl rfl, fun k _ => ?_⟩
  rw [hkeys]
  exact List.nodup_iff_count_le_one.mp hnodup k

theorem isColumn_columnJson (c : Column) : IsColumn (columnJson c) c :=
  .intro (isRecord_obj rfl (by decide)) rfl (.present rfl rfl)

theorem isList_columnsJson (cs : Columns) : IsList IsColumn (columnsJson cs) cs := by
  refine ⟨_, rfl, ?_⟩
  rw [List.forall₂_map_left_iff, List.forall₂_same]
  exact fun c _ => isColumn_columnJson c

/-- Objects under their names are a collection, however often a name occurs. -/
theorem isCollection_keyed {R : String → Json → α → Prop} {name : α → String} {write : α → Json}
    (h : ∀ x, R (name x) (write x) x) (items : List α) :
    IsCollection R (keyed name write items) items := by
  refine .inr ⟨_, rfl, ?_⟩
  rw [List.forall₂_map_left_iff, List.forall₂_same]
  exact fun x _ => h x

/-- Under its own name an object keeps it, empty or not. -/
theorem isName_self (name : String) : IsName name name name := ⟨fun _ => rfl, fun _ => rfl⟩

theorem isTable_toJson (t : Table) : IsTable t.name t.toJson t :=
  .intro (isRecord_obj rfl (by decide)) (.present rfl rfl) (isName_self t.name)
    (.present rfl (isList_columnsJson t.columns))

theorem isFunction_toJson (f : Function) : IsFunction f.name f.toJson f :=
  .intro (isRecord_obj rfl (by decide)) (.present rfl rfl) (isName_self f.name)
    (.present rfl rfl) (.present rfl (isList_columnsJson f.inputs))
    (.present rfl (isList_columnsJson f.outputs))

theorem isDatabase_toJson (db : Database) : IsDatabase db.name db.toJson db :=
  .intro (isRecord_obj rfl (by decide)) (.present rfl rfl) (isName_self db.name)
    (.present rfl (isCollection_keyed isTable_toJson db.tables))
    (.present rfl (isCollection_keyed isTable_toJson db.views))
    (.present rfl (isCollection_keyed isFunction_toJson db.functions))
    (.present rfl (isCollection_keyed isTable_toJson db.externals))

theorem isCluster_toJson (c : Cluster) : IsCluster c.toJson c :=
  .intro (isRecord_obj rfl (by decide))
    (.present rfl (isCollection_keyed isDatabase_toJson c.databases))

/-- **Writing and reading.**  Every cluster is read back from what is written for it, whatever its
objects are named and however often; and whatever is read is the one cluster that the document
describes. -/
theorem document_laws : (∀ c : Cluster, Cluster.ofJson? c.toJson = some c) ∧
    ∀ j c, Cluster.ofJson? j = some c ↔ IsCluster j c :=
  ⟨fun c => (Cluster.ofJson_iff c).mpr (isCluster_toJson c), fun _ => Cluster.ofJson_iff⟩

/-- A key twice, a name of its own, and a table whose column is a list. -/
example : Cluster.ofJson? (.arr [.obj
    [("A", .obj []), ("A", .arr []),
      ("B", .obj [("Name", .str "C"), ("Tables", .obj
        [("T", .arr [.str "", .arr [.arr [.str "Timestamp", .str "datetime"]]])])])]]) =
      some ⟨[{ name := "A" }, { name := "A" },
        { name := "C", tables := [⟨"T", [⟨"Timestamp", "datetime"⟩]⟩] }]⟩ := by decide

end Writing

end Kusto.Schema
