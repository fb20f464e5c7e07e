import Kusto.Builder
import Kusto.Proofs.Compile.Form
import Kusto.Proofs.Schema.Search

/-!
# Source columns — whose columns a stored query is compiled against

The source of a query names an object: that of an alias, or a function of the database of the query.
Its columns are looked for by name alone, among tables, views, external tables and functions in
this order.  So they are those of the object named unless another collection of the database
shadows the name; then they are those of an object there.
-/

namespace Kusto.Builder

open Compile (functionSource aliasSource)
open Kql (Source)
open Schema (Alias AliasKind Cluster Collection)
open Stored (Query)

variable {b : Builder} {q : Query} {kind : AliasKind} {database name : String}

/-- The source of a query names an object: through an alias of that object or, without an alias,
by a call of a function of the database of the query. -/
inductive Names (b : Builder) (q : Query) : AliasKind → String → String → Prop
  | through {a : Alias} (h : q.draft.sourceName?.bind b.aliases.find? = some a) :
    Names b q a.kind a.database a.name
  | call {name : String} (hname : q.draft.sourceName? = some name)
    (halias : b.aliases.find? name = none)
    (htype : q.draft.source.map Property.type = some .function) :
    Names b q .function (b.databaseOf q) name

/-- An object as the source of a query in the database `current`. -/
def objectSource (current : String) (kind : AliasKind) (database name : String) : Source :=
  let db := if database = current then none else some database
  match kind with
  | .function => functionSource db name
  | .table | .view => .table db name

theorem aliasSource_eq (current : String) (a : Alias) :
    aliasSource current a = objectSource current a.kind a.database a.name := rfl

/-- A query that names an object has it for its source. -/
theorem source_of_names (h : Names b q kind database name) :
    (Compile.pipeline (b.contextOf q) q.draft).source =
      objectSource (b.databaseOf q) kind database name := by
  rw [Compile.source_pipeline]
  unfold Compile.sourceOf
  cases h with
  | @through a h =>
    obtain ⟨source, hsource, -⟩ := Option.bind_eq_some_iff.mp h
    have halias : (b.contextOf q).alias? = some a := h
    rw [hsource, halias]
    exact aliasSource_eq _ a
  | call hname halias htype =>
    have hnone : (b.contextOf q).alias? = none := by
      show q.draft.sourceName?.bind b.aliases.find? = none
      rw [hname]
      exact halias
    rw [hname, hnone]
    simp [htype, objectSource]

theorem columns_contextOf (b : Builder) (q : Query) : (b.contextOf q).columns =
    b.sourceColumns (b.databaseOf q) q.draft.sourceName?
      (q.draft.sourceName?.bind b.aliases.find?) := rfl

/-- The columns of a query that names an object are those that its name finds. -/
theorem columns_of_names (h : Names b q kind database name) :
    (b.contextOf q).columns = b.schema.columnsOf database name := by
  rw [columns_contextOf]
  cases h with
  | through h =>
    rw [h]
    rfl
  | call hname halias htype =>
    rw [hname, Option.bind_some, halias]
    rfl

/-- **Whose columns a query is compiled against.**  A query of the builder whose source names an
object is compiled with that object for its source, and against the columns of the first table of
its name, else of the first view, external table or function.  These are the columns of the object
named, none if it is missing, where nothing shadows its name; where something does, they are those
of the first object of the search, which another collection holds. -/
theorem columns_named (b : Builder) (q : Query) (kind : AliasKind) (database name : String)
    (hbuilder : q.isRaw = false) (h : Names b q kind database name) :
    let out := Compile.compile (b.contextOf q) q.draft
    b.compileStored q = ⟨q, out.query, some out.pipeline, out.warnings⟩ ∧
      out.pipeline.source = objectSource (b.databaseOf q) kind database name ∧
      (b.contextOf q).columns = b.schema.columnsOf database name ∧
      (b.schema.IsUnshadowed database name kind.collection →
        (b.contextOf q).columns = b.schema.heldColumns database name kind.collection) ∧
      (¬ b.schema.IsUnshadowed database name kind.collection →
        ∃ other, other ≠ kind.collection ∧
          (∃ db, b.schema.database? database = some db ∧ db.Finds name other) ∧
          (b.contextOf q).columns = b.schema.heldColumns database name other) := by
  intro out
  have hcolumns := columns_of_names h
  refine ⟨?_, source_of_names h, hcolumns, fun hclear => ?_, fun hshadow => ?_⟩
  · unfold compileStored
    rw [if_neg (by simp [hbuilder])]
  · rw [hcolumns]
    exact Cluster.columnsOf_of_isUnshadowed hclear
  · rw [hcolumns]
    exact Cluster.exists_heldColumns_of_not_isUnshadowed hshadow

/-- A database with a function, and with a table of the same name if wanted. -/
def recentBuilder (tables : List Schema.Table) : Builder where
  schema := ⟨[{
    name := "Samples"
    tables
    functions := [{ name := "Recent", outputs := [⟨"Seen", "datetime"⟩] }] }]⟩

/-- A query of the function. -/
def recentQuery : Query where
  database := "Samples"
  draft := { source := some ⟨"Recent", .function⟩ }

theorem names_recent (tables : List Schema.Table) :
    Names (recentBuilder tables) recentQuery .function "Samples" "Recent" :=
  .call rfl rfl rfl

theorem columns_named_recent :
    recentQuery.isRaw = false ∧ Names (recentBuilder []) recentQuery .function "Samples" "Recent" ∧
      ((recentBuilder []).contextOf recentQuery).columns = [⟨"Seen", "datetime"⟩] := by
  have hall := columns_named (recentBuilder []) recentQuery .function "Samples" "Recent" (by decide)
    (names_recent [])
  exact ⟨by decide, names_recent [], hall.2.2.1.trans (by decide)⟩

/-- The table of the same name lends its columns to the call of the function. -/
theorem not_heldColumns_recent :
    recentQuery.isRaw = false ∧
      Names (recentBuilder [⟨"Recent", [⟨"Stored", "datetime"⟩]⟩]) recentQuery .function "Samples"
        "Recent" ∧
      ((recentBuilder [⟨"Recent", [⟨"Stored", "datetime"⟩]⟩]).compileStored recentQuery).text =
        "Recent()" ∧
      (recentBuilder [⟨"Recent", [⟨"Stored", "datetime"⟩]⟩]).schema.heldColumns "Samples" "Recent"
        .functions = [⟨"Seen", "datetime"⟩] ∧
      ((recentBuilder [⟨"Recent", [⟨"Stored", "datetime"⟩]⟩]).contextOf recentQuery).columns =
        [⟨"Stored", "datetime"⟩] :=
  ⟨by decide, names_recent _, by decide, by decide, by decide⟩

end Kusto.Builder
