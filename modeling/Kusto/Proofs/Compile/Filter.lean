import Kusto.Proofs.Compile.Form
import Kusto.Proofs.Kql.Predicate

/-!
# Filters — the filter of a query says what the draft says

Every complete condition is written as one comparison.  Read back, the filter is the conjunction of
the groups with a complete condition, each of them the disjunction of its complete conditions, in
their order (`compile_filter`).
-/

open Kusto.Text (joinWith)

namespace Kusto.Compile

open Draft (Condition Clause)
open Kql (Expr Token Stage Operand read gather)
open Kql.Reader

/-! ## Conditions -/

section Conditions

variable {ctx : Context}

theorem isComparison_of_isAtom {e : Expr} (h : e.IsAtom) : IsComparison e.tokens := by
  cases e with
  | literal l => cases l <;> exact isComparison_singleton rfl (by simp [Kql.Literal.token])
  | template name => exact isComparison_singleton rfl (by simp)
  | verbatim text => exact isComparison_singleton rfl (by simp)
  | _ => exact absurd h id

theorem isComparison_function {name : String} {ts : List Token} (h : Kept ts) :
    IsComparison (.function name :: Expr.inParens ts) :=
  (isComparison_singleton rfl (by simp)).inParens h

theorem isComparison_reference (ctx : Context) (p : Property) :
    IsComparison (reference ctx p).tokens := by
  rcases reference_cases ctx p with h | ⟨root, keys, h⟩
  · rw [h]
    exact isComparison_singleton rfl (by simp)
  · have hroot : Kept [.identifier root] := kept_singleton rfl
    have hkeys : Kept (keys.flatMap Expr.keyTokens) := .flatMap fun key _ => kept_of_all rfl
    rw [h, Expr.tokens_call]
    exact isComparison_function (hroot.append hkeys)

theorem isComparison_comparing {column e : Expr} {op : String} {P : Expr → Prop}
    (hcol : IsComparison column.tokens) (hP : ∀ v, P v → IsComparison v.tokens)
    (h : Comparing column op P e) : IsComparison e.tokens := by
  cases h with
  | call =>
    rw [Expr.tokens_call]
    exact isComparison_function hcol.kept
  | binary hv =>
    have hvalue := hP _ hv
    exact hcol.spaced rfl hvalue.kept hvalue.last
  | @membership vs hvs =>
    have hvalues : Kept (joinWith Expr.separator (vs.map Expr.tokens)) := by
      refine .joinWith (kept_of_all rfl) fun ts hts => ?_
      obtain ⟨v, hv, rfl⟩ := List.mem_map.mp hts
      exact (hP v (hvs v hv)).kept
    rw [Expr.tokens_membership]
    exact hcol.spaced rfl hvalues.inParens (last_inParens _)
  | @range low high hl hh =>
    have hdots : Kept (Expr.spaced (.mark .range)) := kept_of_all rfl
    have hbounds : Kept (low.tokens ++ Expr.spaced (.mark .range) ++ high.tokens) :=
      ((hP low hl).kept.append hdots).append (hP high hh).kept
    exact hcol.spaced rfl hbounds.inParens (last_inParens _)

def conditionExpr (ctx : Context) (c : Condition) : Expr := (Piece.ofResult (condition ctx c)).expr

/-- The tokens of a condition in its place. -/
def conditionTokens (ctx : Context) (c : Condition) : List Token := (conditionExpr ctx c).tokens

/-- A condition in its place is read as one comparison, also where a marker takes the place. -/
theorem isComparison_conditionTokens (ctx : Context) (c : Condition) :
    IsComparison (conditionTokens ctx c) := by
  unfold conditionTokens conditionExpr
  cases h : condition ctx c with
  | error w => exact isComparison_singleton rfl (by simp)
  | ok e =>
    obtain ⟨o, -, ho⟩ := comparing_of_condition h
    refine isComparison_comparing (isComparison_reference ctx c.property) (fun v hv => ?_) ho
    obtain ⟨x, hx⟩ := hv
    exact isComparison_of_isAtom (isAtom_constant hx)

end Conditions

/-! ## Groups -/

section Groups

variable (ctx : Context) (d : Draft)

/-- The complete conditions of each group that has one. -/
def completeGroups : List (List Condition) :=
  (d.filter.items.map fun g => g.items.filter isComplete).filter (!·.isEmpty)

theorem ne_nil_of_mem_completeGroups {g : List Condition} (h : g ∈ completeGroups d) :
    g ≠ [] := by
  have hg := (List.mem_filter.mp h).2
  simpa using hg

/-- Every complete condition stands in its group, once and in its order. -/
theorem flatten_completeGroups :
    (completeGroups d).flatten = (conditions d).filter isComplete := by
  rw [completeGroups, conditions, List.filter_flatMap, List.flatten_filter_not_isEmpty,
    List.flatMap_def]

theorem conditionPieces_eq (cs : List Condition) :
    cs.filterMap (conditionPiece? ctx) =
      (cs.filter isComplete).map fun c => .ofResult (condition ctx c) := by
  induction cs with
  | nil => rfl
  | cons c cs ih =>
    by_cases hc : isComplete c
    · rw [List.filter_cons_of_pos hc, List.map_cons, ← ih]
      exact List.filterMap_cons_some (if_pos hc)
    · rw [List.filter_cons_of_neg hc, ← ih]
      exact List.filterMap_cons_none (if_neg hc)

def alternativesExpr (cs : List Condition) : Expr :=
  .paren (.combined .any (cs.map (conditionExpr ctx)))

theorem exprs_filterPieces :
    (filterPieces ctx d).map Piece.expr = (completeGroups d).map (alternativesExpr ctx) := by
  unfold filterPieces completeGroups
  induction d.filter.items with
  | nil => rfl
  | cons g gs ih =>
    have hpieces := conditionPieces_eq ctx g.items
    by_cases hg : g.items.filter isComplete = []
    · -- without a complete condition there is neither a piece nor a group
      have hnone : alternativesPiece? ctx g = none := by
        unfold alternativesPiece?
        rw [hpieces, hg]
        rfl
      rw [List.filterMap_cons_none hnone, ih, List.map_cons,
        List.filter_cons_of_neg (by simp [hg])]
    · have hsome : ∃ q, alternativesPiece? ctx g = some q ∧
          q.expr = alternativesExpr ctx (g.items.filter isComplete) := by
        unfold alternativesPiece?
        rw [hpieces]
        dsimp only
        rw [if_neg (by simpa using hg)]
        refine ⟨_, rfl, ?_⟩
        rw [List.map_map]
        rfl
      obtain ⟨q, hq, he⟩ := hsome
      rw [List.filterMap_cons_some hq, List.map_cons, ih, List.map_cons,
        List.filter_cons_of_pos (by simpa using hg), List.map_cons, he]

theorem filter_eq :
    filter? ctx d = if (completeGroups d).isEmpty then none
      else some (.combined .all ((completeGroups d).map (alternativesExpr ctx))) := by
  have hexprs := exprs_filterPieces ctx d
  have hempty : (filterPieces ctx d).isEmpty = (completeGroups d).isEmpty := by
    rw [← List.isEmpty_map (f := Piece.expr), hexprs, List.isEmpty_map]
  unfold filter?
  dsimp only
  rw [hempty, hexprs]

theorem completeGroups_ne_nil_iff :
    completeGroups d ≠ [] ↔ ∃ c ∈ conditions d, isComplete c := by
  constructor
  · intro h
    obtain ⟨g, hg⟩ := List.exists_mem_of_ne_nil _ h
    obtain ⟨c, hc⟩ := List.exists_mem_of_ne_nil _ (ne_nil_of_mem_completeGroups d hg)
    have hmem : c ∈ (completeGroups d).flatten := List.mem_flatten.mpr ⟨g, hg, hc⟩
    rw [flatten_completeGroups] at hmem
    exact ⟨c, (List.mem_filter.mp hmem).1, (List.mem_filter.mp hmem).2⟩
  · rintro ⟨c, hc, hcomplete⟩ h
    have hmem : c ∈ (completeGroups d).flatten := by
      rw [flatten_completeGroups]
      exact List.mem_filter.mpr ⟨hc, hcomplete⟩
    rw [h] at hmem
    exact absurd hmem List.not_mem_nil

theorem isSome_filter_iff : (filter? ctx d).isSome ↔ ∃ c ∈ conditions d, isComplete c := by
  rw [← completeGroups_ne_nil_iff, filter_eq]
  split
  · rename_i h
    simpa using h
  · rename_i h
    simpa using h

end Groups

/-! ## The reading -/

section Reading

variable (ctx : Context) (d : Draft)

/-- The conjunction of the groups, each of them the disjunction of its complete conditions. -/
def filterReading : List (List Operand) :=
  [(completeGroups d).map fun cs => .group (cs.map fun c => [.atom (conditionTokens ctx c)])]

theorem yields_condition (c : Condition) :
    Yields (conditionTokens ctx c) (.atom (conditionTokens ctx c)) :=
  (isComparison_conditionTokens ctx c).yields

theorem yields_alternatives {cs : List Condition} (h : cs ≠ []) :
    Yields (alternativesExpr ctx cs).tokens
      (.group (cs.map fun c => [.atom (conditionTokens ctx c)])) := by
  have hcs := yields_inParens h (fun c _ => yields_condition ctx c) .any
  have htokens : (cs.map (conditionExpr ctx)).map Expr.tokens = cs.map (conditionTokens ctx) := by
    rw [List.map_map]
    refine List.map_congr_left fun c _ => ?_
    rw [Function.comp_apply, conditionTokens]
  have hoperands : gather .any (cs.map fun c => .atom (conditionTokens ctx c)) =
      cs.map fun c => [.atom (conditionTokens ctx c)] := by
    rw [gather, List.map_map]
    exact List.map_congr_left fun c _ => rfl
  rw [alternativesExpr, Expr.tokens_paren, tokens_combined, htokens, ← hoperands]
  exact hcs

theorem read_filter {e : Expr} (h : filter? ctx d = some e) :
    read e.tokens = some (filterReading ctx d) := by
  rw [filter_eq] at h
  split at h
  · exact absurd h (by simp)
  · rename_i hne
    obtain rfl := Option.some.inj h
    rw [tokens_combined, List.map_map]
    exact read_row (by simpa using hne)
      (fun cs hcs => yields_alternatives ctx (ne_nil_of_mem_completeGroups d hcs)) .all

theorem someHolds_filterReading (v : List Token → Bool) :
    Operand.someHolds v (filterReading ctx d) ↔
      ∀ g ∈ d.filter.items, (∃ c ∈ g.items, isComplete c) →
        ∃ c ∈ g.items, isComplete c ∧ v (conditionTokens ctx c) := by
  have hreading : Operand.someHolds v (filterReading ctx d) ↔
      ∀ cs ∈ completeGroups d, ∃ c ∈ cs, v (conditionTokens ctx c) := by
    simp [filterReading, Operand.holds]
  have hmem : ∀ cs, cs ∈ completeGroups d ↔
      ∃ g ∈ d.filter.items, g.items.filter isComplete = cs ∧ cs ≠ [] := by
    intro cs
    simp only [completeGroups, List.mem_filter, List.mem_map, Bool.not_eq_true',
      List.isEmpty_eq_false_iff]
    exact ⟨fun ⟨⟨g, hg, he⟩, hne⟩ => ⟨g, hg, he, hne⟩, fun ⟨g, hg, he, hne⟩ => ⟨⟨g, hg, he⟩, hne⟩⟩
  -- a group without complete conditions is no part of the reading, and asks for nothing here
  rw [hreading]
  constructor
  · rintro h g hg ⟨c, hc, hcomplete⟩
    have hne : g.items.filter isComplete ≠ [] :=
      List.ne_nil_of_mem (List.mem_filter.mpr ⟨hc, hcomplete⟩)
    obtain ⟨c', hc', hv⟩ := h _ ((hmem _).mpr ⟨g, hg, rfl, hne⟩)
    obtain ⟨hitem, hcomplete'⟩ := List.mem_filter.mp hc'
    exact ⟨c', hitem, hcomplete', hv⟩
  · intro h cs hcs
    obtain ⟨g, hg, rfl, hne⟩ := (hmem cs).mp hcs
    obtain ⟨c, hc⟩ := List.exists_mem_of_ne_nil _ hne
    obtain ⟨hitem, hcomplete⟩ := List.mem_filter.mp hc
    obtain ⟨c', hitem', hcomplete', hv⟩ := h g hg ⟨c, hitem, hcomplete⟩
    exact ⟨c', List.mem_filter.mpr ⟨hitem', hcomplete'⟩, hv⟩

end Reading

/-- What the filter of a query says. -/
structure FilterMeaning (ctx : Context) (d : Draft) : Prop where
  /-- The stages: the time filter, the filter, the summary and the row limit, as far as there are
  any. -/
  stages : (compile ctx d).pipeline.stages = (timeFilter? ctx).toList.map Stage.filter ++
    (filter? ctx d).toList.map Stage.filter ++ summaryStages ctx d ++
    ctx.options.limit.toList.map Stage.take
  /-- There is a filter if and only if some condition is complete. -/
  present : (filter? ctx d).isSome ↔ ∃ c ∈ conditions d, isComplete c
  /-- The tokens of the filter are read as the conjunction of the groups, each of them the
  disjunction of its complete conditions. -/
  reading : ∀ e, filter? ctx d = some e → read e.tokens = some (filterReading ctx d)
  /-- Every complete condition stands there once, and in its order. -/
  order : (completeGroups d).flatten = (conditions d).filter isComplete
  /-- Under every assignment the filter is true exactly when each group with a complete condition
  has one that is. -/
  truth : ∀ e, filter? ctx d = some e → ∀ v : List Token → Bool,
    (read e.tokens).map (Operand.someHolds v) = some true ↔
      ∀ g ∈ d.filter.items, (∃ c ∈ g.items, isComplete c) →
        ∃ c ∈ g.items, isComplete c ∧ v (conditionTokens ctx c)

/-- **The filter means what the draft says**, for every draft and whatever it is read against. -/
theorem compile_filter (ctx : Context) (d : Draft) : FilterMeaning ctx d where
  stages := stages_pipeline ctx d
  present := isSome_filter_iff ctx d
  reading := fun _ h => read_filter ctx d h
  order := flatten_completeGroups d
  truth := fun e h v => by
    rw [read_filter ctx d h, Option.map_some, Option.some_inj]
    exact someHolds_filterReading ctx d v

end Kusto.Compile
