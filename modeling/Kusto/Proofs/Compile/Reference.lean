import Kusto.Proofs.Compile.Form
import Kusto.Schema.Discovery
import Mathlib.Data.List.Forall2

/-!
# References — how a query names what it reads

A property whose name is a path below a dynamic column is written as that path, with the function
that converts it to the type of the property; every other property is written as a column.  This
holds of the conditions, the aggregations and the grouping keys of every draft.  The time filter
takes its column as it stands, so it holds of whole queries unless times are filtered by a path
(`rendersPaths_iff`).
-/

namespace Kusto.Kql

namespace Expr

/-- A path alone. -/
def isOnePath : List Expr → Bool
  | [path _ _] => true
  | _ => false

mutual

/-- What an expression refers to, from left to right.  A call of a function on a path alone is one
reference, the path converted. -/
def references : Expr → List Expr
  | column name => [column name]
  | path root keys => [path root keys]
  | literal _ | template _ | verbatim _ | marker _ => []
  | binary left _ right => left.references ++ right.references
  | call name args => if isOnePath args then [call name args] else referencesIn args
  | membership subject _ values => subject.references ++ referencesIn values
  | range subject _ low high => subject.references ++ low.references ++ high.references
  | logical _ operands => referencesIn operands
  | paren inner => inner.references
termination_by structural e => e

/-- What each expression refers to. -/
def referencesIn : List Expr → List Expr
  | [] => []
  | e :: es => e.references ++ referencesIn es
termination_by structural es => es

end

@[simp] theorem referencesIn_eq_flatMap (es : List Expr) :
    referencesIn es = es.flatMap references := by
  induction es with
  | nil => rfl
  | cons e es ih => rw [referencesIn, ih, List.flatMap_cons]

theorem references_call {args : List Expr} (h : isOnePath args = false) (name : String) :
    (call name args).references = args.flatMap references := by
  show (if isOnePath args then [call name args] else referencesIn args) = _
  rw [h, if_neg (by decide), referencesIn_eq_flatMap]

@[simp] theorem references_combined (c : Connective) (es : List Expr) :
    (combined c es).references = es.flatMap references := by
  unfold combined
  split
  · simp
  · exact referencesIn_eq_flatMap es

theorem references_of_isAtom {e : Expr} (h : e.IsAtom) : e.references = [] := by
  cases e <;> first | rfl | exact absurd h id

end Expr

/-- What a stage refers to; aggregates stand before keys. -/
def Stage.references : Stage → List Expr
  | filter predicate => predicate.references
  | summarize aggregates keys =>
    aggregates.flatMap Expr.references ++ keys.flatMap Expr.references
  | take _ => []

/-- What a pipeline refers to, stage by stage. -/
def Pipeline.references (p : Pipeline) : List Expr := p.stages.flatMap Stage.references

end Kusto.Kql

namespace Kusto.Compile

open Draft (Condition Aggregation Grouping Clause)
open Kql (Expr Stage Pipeline)

/-! ## Properties that are written -/

section Properties

variable (ctx : Context)

/-- The property of a condition that is written. -/
def conditionProperty? (c : Condition) : Option Property :=
  if isComplete c && (condition ctx c).isOk then some c.property else none

/-- The property of an aggregation that is written with its column. -/
def aggregationProperty? (a : Aggregation) : Option Property :=
  match Aggregate.find? (Text.trim a.function.name) with
  | some f =>
    if (aggregationPiece? ctx a).isSome && f.takesColumn then some a.property else none
  | none => none

/-- The property of a grouping key that is written. -/
def groupingProperty? (g : Grouping) : Option Property :=
  if Text.isBlankText g.property.name then none
  else if g.property.type = .dateTime && (width? (widthOf ctx g)).isNone then none
  else some g.property

/-- The properties of a draft that are written, in the order of the query. -/
def writtenProperties (d : Draft) : List Property :=
  (conditions d).filterMap (conditionProperty? ctx) ++
    d.aggregations.items.filterMap (aggregationProperty? ctx) ++
    d.groupings.items.filterMap (groupingProperty? ctx)

/-- The column by which times are filtered, as a property. -/
def timeProperty? : Option Property :=
  if ctx.options.timeFilter then
    ctx.columns.firstDateTime?.map fun c => ⟨c.name, .dateTime⟩
  else none

end Properties

/-! ## The references of the parts -/

section Parts

variable {ctx : Context}

theorem references_reference (ctx : Context) (p : Property) :
    (reference ctx p).references = [reference ctx p] := by
  rcases reference_cases ctx p with h | ⟨root, keys, h⟩ <;> rw [h] <;> rfl

theorem isOnePath_reference (ctx : Context) (p : Property) (es : List Expr) :
    Expr.isOnePath (reference ctx p :: es) = false := by
  rcases reference_cases ctx p with h | ⟨root, keys, h⟩ <;> rw [h] <;> rfl

theorem references_flatMap_nil {es : List Expr} (h : ∀ e ∈ es, e.references = []) :
    es.flatMap Expr.references = [] :=
  List.flatMap_eq_nil_iff.mpr h

theorem references_comparing {p : Property} {e : Expr} {op : String} {P : Expr → Prop}
    (hP : ∀ v, P v → v.references = []) (h : Comparing (reference ctx p) op P e) :
    e.references = [reference ctx p] := by
  have hcol := references_reference ctx p
  cases h with
  | call =>
    rw [Expr.references_call (isOnePath_reference ctx p []), List.flatMap_singleton, hcol]
  | binary hv =>
    show (reference ctx p).references ++ _ = _
    rw [hcol, hP _ hv]
    rfl
  | @membership vs hvs =>
    show (reference ctx p).references ++ Expr.referencesIn vs = _
    rw [hcol, Expr.referencesIn_eq_flatMap, references_flatMap_nil fun v hv => hP v (hvs v hv)]
    rfl
  | range hl hh =>
    show (reference ctx p).references ++ _ ++ _ = _
    rw [hcol, hP _ hl, hP _ hh]
    rfl

/-- The references of a part that may be left out. -/
def pieceReferences (q? : Option Piece) : List Expr := q?.elim [] fun q => q.expr.references

/-- Parts of which each refers to a property or to none refer to their properties in order. -/
theorem references_filterMap {α : Type} {f : α → Option Piece} {g : α → Option Property}
    (h : ∀ x, pieceReferences (f x) = (g x).toList.map (reference ctx)) (xs : List α) :
    ((xs.filterMap f).map Piece.expr).flatMap Expr.references =
      (xs.filterMap g).map (reference ctx) := by
  rw [List.flatMap_map, flatMap_filterMap, List.filterMap_eq_flatMap_toList, List.map_flatMap]
  exact List.flatMap_congr fun x _ => h x

theorem references_conditionPiece (c : Condition) :
    pieceReferences (conditionPiece? ctx c) =
      (conditionProperty? ctx c).toList.map (reference ctx) := by
  unfold conditionPiece? conditionProperty?
  by_cases hc : isComplete c
  · rw [if_pos hc, hc, Bool.true_and]
    cases h : condition ctx c with
    | error w => rfl
    | ok e =>
      obtain ⟨o, -, ho⟩ := comparing_of_condition h
      refine references_comparing (fun v hv => ?_) ho
      obtain ⟨x, hx⟩ := hv
      exact Expr.references_of_isAtom (isAtom_constant hx)
  · rw [if_neg hc, Bool.eq_false_iff.mpr hc]
    rfl

theorem references_alternativesPiece (g : Clause Condition) :
    pieceReferences (alternativesPiece? ctx g) =
      (g.items.filterMap (conditionProperty? ctx)).map (reference ctx) := by
  have hitems : ((g.items.filterMap (conditionPiece? ctx)).map Piece.expr).flatMap Expr.references =
      (g.items.filterMap (conditionProperty? ctx)).map (reference ctx) :=
    references_filterMap references_conditionPiece g.items
  unfold alternativesPiece?
  dsimp only
  split
  · rename_i hempty
    rw [List.isEmpty_iff.mp hempty] at hitems
    exact hitems
  · rw [← hitems]
    exact Expr.references_combined _ _

theorem references_arguments {f : Aggregate} {ps : List Draft.Parameter} :
    ((argumentPieces f ps).map Piece.expr).flatMap Expr.references = [] := by
  refine references_flatMap_nil fun e he => ?_
  obtain ⟨q, hq, rfl⟩ := List.mem_map.mp he
  rcases argument_cases hq with ⟨r, -, rfl⟩ | ⟨missing, rfl⟩
  · cases h : operand r.name r.type r.value with
    | error w => rfl
    | ok e => exact Expr.references_of_isAtom (isAtom_constant (constant_of_operand h))
  · rfl

theorem references_aggregationPiece (a : Aggregation) :
    pieceReferences (aggregationPiece? ctx a) =
      (aggregationProperty? ctx a).toList.map (reference ctx) := by
  unfold aggregationProperty?
  cases h : aggregationPiece? ctx a with
  | none => split <;> rfl
  | some q =>
    rcases aggregation_cases h with ⟨hf, rfl⟩ | ⟨f, hf, ⟨hcol, rfl⟩ | ⟨hcol, rfl⟩⟩
    · rw [hf]
      rfl
    · rw [hf]
      dsimp only
      rw [hcol]
      rfl
    · rw [hf]
      dsimp only
      rw [hcol]
      show (Expr.call f.name _).references = _
      rw [Expr.references_call (isOnePath_reference ctx _ _), List.flatMap_cons,
        references_reference, references_arguments]
      rfl

theorem references_groupingPiece (g : Grouping) :
    pieceReferences (groupingPiece? ctx g) =
      (groupingProperty? ctx g).toList.map (reference ctx) := by
  have hcol := references_reference ctx g.property
  unfold groupingPiece? groupingProperty?
  dsimp only
  split
  · rfl
  · split
    · rename_i htype
      rw [decide_eq_false htype, Bool.false_and, if_neg (by decide)]
      exact hcol
    · rename_i htype
      rw [decide_eq_true (not_not.mp htype), Bool.true_and]
      -- only a key by time has a width, and it becomes a marker if the width cannot be written
      cases hw : width? (widthOf ctx g) with
      | none => rfl
      | some w =>
        rw [if_neg (by simp)]
        show (Expr.call "bin" [reference ctx g.property, w]).references = _
        rw [Expr.references_call (isOnePath_reference ctx _ _), List.flatMap_cons, hcol,
          List.flatMap_singleton, Expr.references_of_isAtom (isAtom_width hw)]
        rfl

end Parts

/-! ## The references of a query -/

section Queries

variable (ctx : Context) (d : Draft)

/-- The time filter takes its column as it stands. -/
theorem references_timeFilter :
    (timeFilter? ctx).toList.flatMap Expr.references =
      (timeProperty? ctx).toList.map fun p => .column p.name := by
  unfold timeFilter? timeProperty?
  split
  · cases ctx.columns.firstDateTime? <;> rfl
  · rfl

theorem references_filter :
    (filter? ctx d).toList.flatMap Expr.references =
      ((conditions d).filterMap (conditionProperty? ctx)).map (reference ctx) := by
  have hgroups : ((filterPieces ctx d).map Piece.expr).flatMap Expr.references =
      ((conditions d).filterMap (conditionProperty? ctx)).map (reference ctx) := by
    rw [List.flatMap_map, filterPieces, flatMap_filterMap, conditions, List.filterMap_flatMap,
      List.map_flatMap]
    exact List.flatMap_congr fun g _ => references_alternativesPiece g
  rw [← hgroups]
  unfold filter?
  dsimp only
  split
  · rename_i hempty
    rw [List.isEmpty_iff.mp hempty]
    rfl
  · rw [Option.toList_some, List.flatMap_singleton, Expr.references_combined]

theorem references_summaryStages :
    (summaryStages ctx d).flatMap Stage.references =
      (d.aggregations.items.filterMap (aggregationProperty? ctx)).map (reference ctx) ++
        (d.groupings.items.filterMap (groupingProperty? ctx)).map (reference ctx) := by
  rw [← references_filterMap references_aggregationPiece,
    ← references_filterMap references_groupingPiece]
  unfold summaryStages
  dsimp only
  split
  · rename_i hempty
    obtain ⟨ha, hk⟩ := (Bool.and_eq_true _ _).mp hempty
    rw [← aggregationPieces, ← groupingPieces, List.isEmpty_iff.mp ha, List.isEmpty_iff.mp hk]
    rfl
  · exact List.flatMap_singleton ..

/-- A query refers to the column of its time filter and then to the properties of the draft. -/
theorem references_pipeline :
    (pipeline ctx d).references = ((timeProperty? ctx).toList.map fun p => .column p.name) ++
      (writtenProperties ctx d).map (reference ctx) := by
  have hstages : ∀ f : Option Expr,
      (f.toList.map Stage.filter).flatMap Stage.references = f.toList.flatMap Expr.references :=
    fun f => List.flatMap_map ..
  have hlimit : (ctx.options.limit.toList.map Stage.take).flatMap Stage.references = [] := by
    cases ctx.options.limit <;> rfl
  rw [Pipeline.references, stages_pipeline, List.flatMap_append, List.flatMap_append,
    List.flatMap_append, hstages, hstages, references_timeFilter, references_filter,
    references_summaryStages, hlimit, writtenProperties, List.map_append, List.map_append]
  simp only [List.append_nil, List.append_assoc]

end Queries

/-! ## Paths -/

section Paths

/-- How a property is referred to: as the path that its name stands for, with the conversion to its
type, or else as a column. -/
inductive Refers (cs : Columns) : Property → Expr → Prop
  | path {p : Property} {root : String} {keys : List String}
    (h : cs.dynamicPath? p.name = some (root, keys)) :
    Refers cs p (.call p.type.conversion [.path root keys])
  | column {p : Property} (h : cs.dynamicPath? p.name = none) : Refers cs p (.column p.name)

theorem refers_reference (ctx : Context) (p : Property) :
    Refers ctx.columns p (reference ctx p) := by
  unfold reference
  cases h : ctx.columns.dynamicPath? p.name with
  | none => exact .column h
  | some path => exact .path h

theorem refers_column_iff {cs : Columns} {p : Property} :
    Refers cs p (.column p.name) ↔ cs.dynamicPath? p.name = none := by
  constructor
  · intro h
    cases h with
    | column h => exact h
  · exact .column

variable (ctx : Context) (d : Draft)

/-- Every reference of the query is one to a property that is written, the column of the time filter
first, and a path is referred to as such. -/
structure RendersPaths : Prop where
  references : List.Forall₂ (Refers ctx.columns)
    ((timeProperty? ctx).toList ++ writtenProperties ctx d) (compile ctx d).pipeline.references
  columns : ∀ name, .column name ∈ (compile ctx d).pipeline.references →
    ctx.columns.dynamicPath? name = none

/-- Times are to be filtered, and the first column of times is a path below a dynamic one. -/
def FiltersTimeByPath : Prop :=
  ctx.options.timeFilter = true ∧
    ∃ c path, ctx.columns.firstDateTime? = some c ∧ ctx.columns.dynamicPath? c.name = some path

theorem filtersTimeByPath_iff :
    FiltersTimeByPath ctx ↔
      ∃ p path, timeProperty? ctx = some p ∧ ctx.columns.dynamicPath? p.name = some path := by
  unfold FiltersTimeByPath timeProperty?
  constructor
  · rintro ⟨hon, c, path, hc, hpath⟩
    rw [if_pos hon, hc]
    exact ⟨_, path, rfl, hpath⟩
  · rintro ⟨p, path, hp, hpath⟩
    split at hp
    · rename_i hon
      obtain ⟨c, hc, rfl⟩ := Option.map_eq_some_iff.mp hp
      exact ⟨hon, c, path, hc, hpath⟩
    · exact absurd hp (by simp)

theorem forall_refers_reference (ps : List Property) :
    List.Forall₂ (Refers ctx.columns) ps (ps.map (reference ctx)) := by
  rw [List.forall₂_map_right_iff]
  exact List.forall₂_same.mpr fun p _ => refers_reference ctx p

/-- A column that is referred to is not the name of a path. -/
theorem dynamicPath_of_forall_refers {cs : Columns} {ps : List Property} {es : List Expr}
    (h : List.Forall₂ (Refers cs) ps es) {name : String} (hmem : .column name ∈ es) :
    cs.dynamicPath? name = none := by
  induction h with
  | nil => exact absurd hmem List.not_mem_nil
  | cons hhead _ ih =>
    rcases List.mem_cons.mp hmem with rfl | hmem
    · cases hhead with
      | column h => exact h
    · exact ih hmem

/-- **How queries refer to paths.**  The properties of a draft are referred to as the paths that
their names stand for, in every query.  So are all references of a query unless times are filtered
and the first column of times is itself a path: then the time filter takes it for a column. -/
theorem rendersPaths_iff :
    (RendersPaths ctx d ↔ ¬ FiltersTimeByPath ctx) ∧
      ∃ es, (compile ctx d).pipeline.references =
          ((timeProperty? ctx).toList.map fun p => .column p.name) ++ es ∧
        List.Forall₂ (Refers ctx.columns) (writtenProperties ctx d) es := by
  have hdraft := forall_refers_reference ctx (writtenProperties ctx d)
  refine ⟨?_, _, references_pipeline ctx d, hdraft⟩
  -- every reference that comes from the draft is right, so the one of the time filter decides
  rw [filtersTimeByPath_iff]
  constructor
  · rintro h ⟨p, path, hp, hpath⟩
    have hmem : .column p.name ∈ (compile ctx d).pipeline.references := by
      show _ ∈ (pipeline ctx d).references
      rw [references_pipeline, hp]
      exact List.mem_cons_self
    rw [h.columns p.name hmem] at hpath
    exact absurd hpath (by simp)
  · intro hnone
    have htime : List.Forall₂ (Refers ctx.columns) (timeProperty? ctx).toList
        ((timeProperty? ctx).toList.map fun p => .column p.name) := by
      rw [List.forall₂_map_right_iff]
      refine List.forall₂_same.mpr fun p hp => refers_column_iff.mpr ?_
      cases hpath : ctx.columns.dynamicPath? p.name with
      | none => rfl
      | some path => exact absurd ⟨p, path, Option.mem_toList.mp hp, hpath⟩ hnone
    have hall : List.Forall₂ (Refers ctx.columns)
        ((timeProperty? ctx).toList ++ writtenProperties ctx d)
        (compile ctx d).pipeline.references := by
      show List.Forall₂ _ _ (pipeline ctx d).references
      rw [references_pipeline]
      exact List.rel_append htime hdraft
    exact ⟨hall, fun name hname => dynamicPath_of_forall_refers hall hname⟩

/-- A dynamic column in whose values a time has been discovered. -/
def discoveredTimes : Context where
  columns := Columns.addAll [⟨"Props", "dynamic"⟩]
    (Schema.discovered "Props" (.obj [("when", .str "datetime")]))
  options := { timeFilter := true }

/-- The time filter takes the discovered time for a column, which the source does not have. -/
theorem not_rendersPaths_discoveredTimes :
    .column "Props.when" ∈ (compile discoveredTimes (.ofTable "Events")).pipeline.references ∧
      discoveredTimes.columns.dynamicPath? "Props.when" = some ("Props", ["when"]) ∧
      (compile discoveredTimes (.ofTable "Events")).query =
        "Events | where $__timeFilter(['Props.when'])" ∧
      ¬ RendersPaths discoveredTimes (.ofTable "Events") := by
  have hmem : .column "Props.when" ∈
      (compile discoveredTimes (.ofTable "Events")).pipeline.references := List.mem_cons_self
  have hpath : discoveredTimes.columns.dynamicPath? "Props.when" = some ("Props", ["when"]) := by
    decide
  refine ⟨hmem, hpath, by decide, fun h => ?_⟩
  rw [h.columns _ hmem] at hpath
  exact absurd hpath (by simp)

end Paths

end Kusto.Compile
