import Kusto.Proofs.Compile.Form
import Kusto.Proofs.Schema.Discovery
import Mathlib.Data.List.Basic

/-!
# Fields of dynamic columns — whether a discovered column stands for the field it was found at

A column that discovery finds has the name of its path, and a query reads that name as a path again.
The two agree if the dynamic column has no dot in its name and no key has one or is empty, and only
then.  With a dot the query reads a field elsewhere or none; with an empty key it takes the name
for that of a column.
-/

namespace Kusto.Compile

open Draft (Condition)
open Kql (Expr identifier quoted render)
open Schema (IsPlainPath Leaf discovered pathName mem_discovered_iff)

/-! ## Fields -/

/-- A field of a dynamic column, converted to a type. -/
def field (type : ValueType) (column : String) (keys : List String) : Expr :=
  .call type.conversion [.path column keys]

/-- A field in its written form: the column, and each key as a text in brackets. -/
def fieldChars (column : String) (keys : List String) : List Char :=
  identifier column ++ keys.flatMap fun key => '[' :: (quoted key ++ [']'])

theorem render_field (type : ValueType) (column : String) (keys : List String) :
    render (field type column keys).tokens =
      type.conversion.toList ++ '(' :: (fieldChars column keys ++ [')']) := by
  have hkeys : render (keys.flatMap Expr.keyTokens) =
      keys.flatMap fun key => '[' :: (quoted key ++ [']']) := by
    rw [render, List.flatMap_assoc]
    refine List.flatMap_congr fun key _ => ?_
    show render (Expr.keyTokens key) = _
    simp [Expr.keyTokens, Kql.Mark.chars]
  simp [field, fieldChars, Expr.inParens, Kql.Mark.chars, hkeys]

variable {ctx : Context} {p : Property} {column : String} {keys : List String}

/-- A property is compiled to a field exactly if its name is read as the path of the field. -/
theorem reference_eq_field_iff :
    reference ctx p = field p.type column keys ↔
      ctx.columns.dynamicPath? p.name = some (column, keys) := by
  unfold reference field
  split
  · rename_i root path hpath
    rw [hpath]
    simp
  · rename_i hnone
    rw [hnone]
    simp

/-- A condition that can be written compares the field of its property. -/
theorem comparing_field {c : Condition} {e : Expr}
    (hpath : ctx.columns.dynamicPath? c.property.name = some (column, keys))
    (h : condition ctx c = .ok e) :
    ∃ o ∈ FilterOperator.all, Comparing (field c.property.type column keys) o.name
      (fun x => ∃ v, constant? c.property.type v = some x) e := by
  have hfield := reference_eq_field_iff.mpr hpath
  rw [← hfield]
  exact comparing_of_condition h

/-! ## Discovered fields -/

/-- In queries over these columns the name of the path stands for the field: it is read as column
and keys, a property of that name is compiled to the field, and so a condition on it compares the
field. -/
structure ReadsField (cs : Columns) (column : String) (keys : List String) : Prop where
  path : cs.dynamicPath? (pathName column keys) = some (column, keys)
  property : ∀ ctx : Context, ctx.columns = cs → ∀ p : Property, p.name = pathName column keys →
    reference ctx p = field p.type column keys
  condition : ∀ ctx : Context, ctx.columns = cs → ∀ c : Condition,
    c.property.name = pathName column keys → ∀ e, condition ctx c = .ok e →
      ∃ o ∈ FilterOperator.all, Comparing (field c.property.type column keys) o.name
        (fun x => ∃ v, constant? c.property.type v = some x) e

theorem readsField_of_path {cs : Columns}
    (hpath : cs.dynamicPath? (pathName column keys) = some (column, keys)) :
    ReadsField cs column keys where
  path := hpath
  property := by
    rintro ctx rfl p hname
    rw [reference_eq_field_iff, hname]
    exact hpath
  condition := by
    rintro ctx rfl c hname e h
    refine comparing_field ?_ h
    rw [hname]
    exact hpath

/-- **The fields whose discovered column can be used.**  Every typed leaf below a dynamic column is
offered as a column under the name of its path.  Queries over the columns so extended read that
name as the field of the leaf, in its written form the column followed by the keys in brackets, if
the path is plain, and only then: otherwise no property of that name is compiled to the field. -/
theorem readsField_iff_isPlainPath (cs : Columns) (column : String) (shape : Json)
    (keys : List String) (type : String) (hdyn : cs.IsDynamic column)
    (hleaf : Leaf shape keys type) (hne : keys ≠ []) :
    let extended := cs.addAll (discovered column shape)
    ⟨pathName column keys, type⟩ ∈ discovered column shape ∧
      (extended.find? (pathName column keys)).isSome ∧
      (ReadsField extended column keys ↔ IsPlainPath column keys) ∧
      (¬ IsPlainPath column keys → ∀ ctx : Context, ctx.columns = extended → ∀ p : Property,
        p.name = pathName column keys → reference ctx p ≠ field p.type column keys) ∧
      ∀ t : ValueType, render (field t column keys).tokens =
        t.conversion.toList ++ '(' :: (fieldChars column keys ++ [')']) := by
  intro extended
  have hmem : ⟨pathName column keys, type⟩ ∈ discovered column shape :=
    (mem_discovered_iff column shape _).mpr ⟨keys, hleaf, rfl⟩
  have hiff := Columns.dynamicPath_pathName_iff (hdyn.addAll (discovered column shape)) hne
  refine ⟨hmem, Columns.isSome_find_addAll hmem, ?_, ?_, fun t => render_field t column keys⟩
  · exact ⟨fun h => hiff.mp h.path, fun h => readsField_of_path (hiff.mpr h)⟩
  · rintro hplain ctx hcs p hname href
    -- a reference to the field can only have come from the path of the name
    rw [reference_eq_field_iff, hcs, hname] at href
    exact hplain (hiff.mp href)

/-- A dynamic column of storms, and the shape of its values. -/
def stormColumns : Columns := [⟨"StartTime", "datetime"⟩, ⟨"StormSummary", "dynamic"⟩]

def stormShape : Json :=
  .obj [("TotalDamages", .str "long"), ("Details", .obj [("Location", .str "string")])]

theorem readsField_location :
    stormColumns.IsDynamic "StormSummary" ∧
      Leaf stormShape ["Details", "Location"] "string" ∧
      pathName "StormSummary" ["Details", "Location"] = "StormSummary.Details.Location" ∧
      ReadsField (stormColumns.addAll (discovered "StormSummary" stormShape)) "StormSummary"
        ["Details", "Location"] := by
  have hdyn : stormColumns.IsDynamic "StormSummary" :=
    ⟨⟨"StormSummary", "dynamic"⟩, by decide, by decide⟩
  have hleaf : Leaf stormShape ["Details", "Location"] "string" :=
    .member (List.mem_cons_of_mem _ List.mem_cons_self) (by decide)
      (.member List.mem_cons_self (by decide) (.type _))
  have hall := readsField_iff_isPlainPath stormColumns "StormSummary" stormShape
    ["Details", "Location"] "string" hdyn hleaf (by decide)
  exact ⟨hdyn, hleaf, by decide, hall.2.2.1.mpr (by decide)⟩

/-- The only column is dynamic. -/
def dynamicColumn (name : String) : Columns := [⟨name, "dynamic"⟩]

/-- A dynamic column with a dot, a key with a dot and an empty key: each time the discovered column
is offered, and its name is read as another path or as none. -/
theorem not_readsField_dotted :
    ((dynamicColumn "My.Props").IsDynamic "My.Props" ∧
      Leaf (.obj [("level", .str "string")]) ["level"] "string" ∧
      discovered "My.Props" (.obj [("level", .str "string")]) = [⟨"My.Props.level", "string"⟩] ∧
      ((dynamicColumn "My.Props").addAll [⟨"My.Props.level", "string"⟩]).dynamicPath?
        "My.Props.level" = none) ∧
    ((dynamicColumn "Props").IsDynamic "Props" ∧
      Leaf (.obj [("a.b", .str "string")]) ["a.b"] "string" ∧
      discovered "Props" (.obj [("a.b", .str "string")]) = [⟨"Props.a.b", "string"⟩] ∧
      ((dynamicColumn "Props").addAll [⟨"Props.a.b", "string"⟩]).dynamicPath? "Props.a.b" =
        some ("Props", ["a", "b"])) ∧
    ((dynamicColumn "Props").IsDynamic "Props" ∧
      Leaf (.obj [("", .str "string")]) [""] "string" ∧
      discovered "Props" (.obj [("", .str "string")]) = [⟨"Props.", "string"⟩] ∧
      ((dynamicColumn "Props").addAll [⟨"Props.", "string"⟩]).dynamicPath? "Props." = none) := by
  have hleaf : ∀ key : String, key ≠ Schema.elementKey →
      Leaf (.obj [(key, .str "string")]) [key] "string" :=
    fun key hkey => .member List.mem_cons_self hkey (.type _)
  have hdyn : (dynamicColumn "Props").IsDynamic "Props" :=
    ⟨⟨"Props", "dynamic"⟩, by decide, by decide⟩
  exact ⟨⟨⟨⟨"My.Props", "dynamic"⟩, by decide, by decide⟩, hleaf _ (by decide), by decide,
      by decide⟩, ⟨hdyn, hleaf _ (by decide), by decide, by decide⟩,
    ⟨hdyn, hleaf _ (by decide), by decide, by decide⟩⟩

end Kusto.Compile
