import Kusto.Proofs.Compile.FunctionSource

/-!
# Alias sources — which aliases are read from their own database

The source behind an alias of another database is written with a call of that database in front of
the name; an alias of the database of the query is written by its name alone.  The exception is a
function whose name brings its own arguments: its text is taken as it stands, and so it is read
from the database of the query whatever the database of the alias.
-/

namespace Kusto.Compile

open Kql (Pipeline Source identifier quoted render)
open Schema (Alias)

variable {ctx : Context} {d : Draft} {a : Alias}

/-- The draft has a source, chosen through the alias. -/
structure ReadsThrough (ctx : Context) (d : Draft) (a : Alias) : Prop where
  named : d.sourceName?.isSome
  alias_eq : ctx.alias? = some a

/-- The alias stands for a function called with arguments of its own. -/
def IsInvocation (a : Alias) : Prop := a.kind = .function ∧ '(' ∈ a.name.toList

instance (a : Alias) : Decidable (IsInvocation a) := inferInstanceAs (Decidable (_ ∧ _))

/-! ## The text of the source -/

section Text

/-- The text of the source of a query. -/
def sourceChars (ctx : Context) (d : Draft) : List Char :=
  render (compile ctx d).pipeline.source.tokens

/-- The name of the object behind an alias in its written form. -/
def objectChars (a : Alias) : List Char :=
  match a.kind with
  | .function => callChars a.name
  | .table | .view => identifier a.name

/-- The call of a database and a dot. -/
def databaseChars (database : String) : List Char :=
  "database".toList ++ '(' :: (quoted database ++ [')', '.'])

theorem render_databaseTokens (database : String) :
    render (Source.databaseTokens (some database)) = databaseChars database := by
  have hcall : render (Kql.Expr.inParens [.text database] ++ [.mark .dot]) =
      '(' :: (quoted database ++ [')', '.']) := by
    simp [Kql.Expr.inParens, Kql.Mark.chars]
  rw [Source.databaseTokens, Kql.render_cons, hcall]
  rfl

theorem render_function (database : Option String) (name : String) :
    render (Source.function database name).tokens =
      render (Source.databaseTokens database) ++ (name.toList ++ ['(', ')']) := by
  simp [Source.tokens, Kql.Expr.inParens, Kql.Mark.chars]

/-- A function brings its arguments or is written behind its database. -/
theorem render_functionSource_database (database : Option String) (name : String) :
    render (functionSource database name).tokens =
      if '(' ∈ name.toList then name.toList
      else render (Source.databaseTokens database) ++ callChars name := by
  unfold functionSource callChars
  split
  · simp [Source.tokens]
  · exact render_function database name

/-- What stands in front of the name of an alias. -/
def qualifierChars (database : String) (a : Alias) : List Char :=
  if a.database = database ∨ IsInvocation a then [] else databaseChars a.database

theorem render_aliasSource (database : String) (a : Alias) :
    render (aliasSource database a).tokens = qualifierChars database a ++ objectChars a := by
  have hdb : render (Source.databaseTokens
      (if a.database = database then none else some a.database)) =
        if a.database = database then [] else databaseChars a.database := by
    split
    · rfl
    · exact render_databaseTokens a.database
  obtain ⟨db, name, label, value, kind⟩ := a
  unfold aliasSource qualifierChars objectChars IsInvocation
  cases kind with
  | function =>
    dsimp only at hdb ⊢
    rw [render_functionSource_database, hdb]
    -- a name with a parenthesis is written as it stands, without the database in front
    by_cases hp : '(' ∈ name.toList
    · simp [hp, callChars]
    · simp [hp]
  | table | view =>
    dsimp only at hdb ⊢
    simp [Source.tokens, hdb]

theorem sourceChars_eq (h : ReadsThrough ctx d a) :
    sourceChars ctx d = qualifierChars ctx.database a ++ objectChars a := by
  obtain ⟨name, hname⟩ := Option.isSome_iff_exists.mp h.named
  have hsource : (sourceOf ctx d).1 = aliasSource ctx.database a := by
    simp [sourceOf, hname, h.alias_eq]
  show render (pipeline ctx d).source.tokens = _
  rw [source_pipeline, hsource, render_aliasSource]

/-- Every query begins with the text of its source. -/
theorem query_begins_with_source (ctx : Context) (d : Draft) :
    sourceChars ctx d <+: (compile ctx d).query.toList := by
  show _ <+: (pipeline ctx d).text.toList
  rw [Pipeline.toList_text]
  exact List.prefix_append _ _

end Text

/-! ## The database of the alias -/

/-- The source is read from the database of the alias: behind a call of that database if it is
another than that of the query, and by its name alone if it is the same. -/
structure IsQualified (ctx : Context) (d : Draft) (a : Alias) : Prop where
  other : a.database ≠ ctx.database →
    databaseChars a.database ++ objectChars a <+: sourceChars ctx d
  same : a.database = ctx.database → sourceChars ctx d = objectChars a

theorem isQualified_of_qualifier (h : ReadsThrough ctx d a)
    (hinvocation : IsInvocation a → a.database = ctx.database) : IsQualified ctx d a where
  other hother := by
    have hnot : ¬ (a.database = ctx.database ∨ IsInvocation a) := by
      rintro (hsame | hcall)
      · exact hother hsame
      · exact hother (hinvocation hcall)
    have hsource : sourceChars ctx d = databaseChars a.database ++ objectChars a := by
      rw [sourceChars_eq h, qualifierChars, if_neg hnot]
    exact hsource ▸ List.prefix_refl _
  same hsame := by
    rw [sourceChars_eq h, qualifierChars, if_pos (.inl hsame), List.nil_append]

/-- The text of a call that brings its arguments is too short for another in front of it. -/
theorem not_isQualified_of_isInvocation (h : ReadsThrough ctx d a) (hcall : IsInvocation a)
    (hother : a.database ≠ ctx.database) : ¬ IsQualified ctx d a := by
  intro hq
  have hlen := (hq.other hother).length_le
  rw [sourceChars_eq h, qualifierChars, if_pos (.inr hcall), List.nil_append,
    List.length_append] at hlen
  have hpos : 0 < (databaseChars a.database).length :=
    List.length_pos_of_mem (List.mem_append_right _ List.mem_cons_self)
  omega

/-- **The aliases that are read from their own database.**  The text of the source, with which the
query begins, is qualified by the database of the alias if and only if the alias is no function
with arguments of its own in another database; and such a function is written as it stands. -/
theorem isQualified_iff_not_isInvocation (ctx : Context) (d : Draft) (a : Alias)
    (h : ReadsThrough ctx d a) :
    sourceChars ctx d <+: (compile ctx d).query.toList ∧
      (IsQualified ctx d a ↔ ¬ (IsInvocation a ∧ a.database ≠ ctx.database)) ∧
      (IsInvocation a → sourceChars ctx d = a.name.toList) := by
  refine ⟨query_begins_with_source ctx d, ⟨?_, ?_⟩, fun hcall => ?_⟩
  · rintro hq ⟨hcall, hother⟩
    exact not_isQualified_of_isInvocation h hcall hother hq
  · intro hnot
    refine isQualified_of_qualifier h fun hcall => ?_
    by_contra hother
    exact hnot ⟨hcall, hother⟩
  · rw [sourceChars_eq h, qualifierChars, if_pos (.inr hcall), List.nil_append, objectChars,
      hcall.1]
    exact if_pos hcall.2

/-- A query in one database whose source is an alias. -/
def samplesThrough (a : Alias) : Context := { database := "Samples", alias? := some a }

/-- A function of another database, with or without arguments of its own. -/
def sharedFunction (name : String) : Alias := ⟨"Shared", name, "Errors", "errors", .function⟩

theorem isQualified_sharedFunction :
    ReadsThrough (samplesThrough (sharedFunction "Errors")) (ofFunction "errors")
        (sharedFunction "Errors") ∧
      IsQualified (samplesThrough (sharedFunction "Errors")) (ofFunction "errors")
        (sharedFunction "Errors") ∧
      sourceChars (samplesThrough (sharedFunction "Errors")) (ofFunction "errors") =
        "database(\"Shared\").Errors()".toList := by
  have h : ReadsThrough (samplesThrough (sharedFunction "Errors")) (ofFunction "errors")
      (sharedFunction "Errors") := ⟨by decide, rfl⟩
  exact ⟨h, (isQualified_iff_not_isInvocation _ _ _ h).2.1.mpr (by decide), by decide⟩

/-- A call with arguments loses the database of its alias. -/
theorem not_isQualified_sharedCall :
    ReadsThrough (samplesThrough (sharedFunction "Errors(1h)")) (ofFunction "errors")
        (sharedFunction "Errors(1h)") ∧
      (compile (samplesThrough (sharedFunction "Errors(1h)")) (ofFunction "errors")).query =
        "Errors(1h)" ∧
      ¬ IsQualified (samplesThrough (sharedFunction "Errors(1h)")) (ofFunction "errors")
        (sharedFunction "Errors(1h)") := by
  have h : ReadsThrough (samplesThrough (sharedFunction "Errors(1h)")) (ofFunction "errors")
      (sharedFunction "Errors(1h)") := ⟨by decide, rfl⟩
  exact ⟨h, rfl, not_isQualified_of_isInvocation h (by decide) (by decide)⟩

end Kusto.Compile
