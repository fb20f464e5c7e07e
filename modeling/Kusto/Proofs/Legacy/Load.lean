import Kusto.Proofs.Draft.RoundTrip
import Kusto.Proofs.Legacy.Upgrade

/-!
# Loading drafts — what was written is of the current generation

The nodes of a written draft show current tags, whatever names and values the user typed.  So a
proper draft is loaded as it was written.
-/

namespace Kusto.Legacy

open Draft (Node Condition Aggregation Grouping Clause)
open Marks

section Written

theorem covered_clause (c : Connective) {children : List Node}
    (h : ∀ n ∈ children, (ofJson n.toJson).Covered) :
    (ofJson (Node.clause c children).toJson).Covered := by
  have hitems : ∀ x ∈ Node.toJsons children, (ofJson x).Covered := by
    intro x hx
    rw [Node.toJsons_eq_map] at hx
    obtain ⟨n, hn, rfl⟩ := List.mem_map.mp hx
    exact h n hn
  exact covered_clauseJson c hitems

theorem covered_toNode {α : Type} {item : α → Node} (h : ∀ x, (ofJson (item x).toJson).Covered)
    (c : Clause α) : (ofJson (c.toNode item).toJson).Covered := by
  refine covered_clause c.connective fun n hn => ?_
  obtain ⟨x, -, rfl⟩ := List.mem_map.mp hn
  exact h x

theorem covered_property (p : Property) : (ofJson (Node.property p).toJson).Covered :=
  covered_obj rfl

theorem covered_operator (c : Condition) : (ofJson c.toNode.toJson).Covered := covered_obj rfl

theorem covered_reduce (a : Aggregation) : (ofJson a.toNode.toJson).Covered := by
  obtain ⟨property, function, parameters⟩ := a
  cases parameters with
  | nil => exact covered_obj rfl
  | cons q qs => exact covered_obj rfl

theorem covered_groupBy (g : Grouping) : (ofJson g.toNode.toJson).Covered := by
  obtain ⟨property, interval⟩ := g
  cases interval with
  | none => exact covered_obj rfl
  | some w => exact covered_obj rfl

theorem covered_filter (c : Clause (Clause Condition)) :
    (ofJson (Draft.filterNode c).toJson).Covered :=
  covered_toNode (covered_toNode covered_operator) c

theorem covered_aggregations (c : Clause Aggregation) :
    (ofJson (Draft.aggregationsNode c).toJson).Covered := covered_toNode covered_reduce c

theorem covered_groupings (c : Clause Grouping) :
    (ofJson (Draft.groupingsNode c).toJson).Covered := covered_toNode covered_groupBy c

/-- **A written draft is of the current generation**, whatever is in it. -/
theorem isLegacy_toJson (d : Draft) : isLegacy d.toJson = false := by
  rw [Draft.toJson_eq]
  refine isLegacy_of_covered (covered_marks (sourceMarks_of_path ?_) ?_)
  · rw [Draft.lookup_from]
    cases d.source <;> rfl
  · refine covered_present (fun p _ => covered_property p) fun m hm => ?_
    simp only [List.mem_cons, List.not_mem_nil, or_false] at hm
    rcases hm with rfl | rfl | rfl
    · exact covered_filter d.filter
    · exact covered_aggregations d.aggregations
    · exact covered_groupings d.groupings

theorem upgrade_toJson (d : Draft) : upgrade d.toJson = d.toJson :=
  upgrade_of_not_isLegacy (isLegacy_toJson d)

theorem loadDraft_toJson {d : Draft} (h : d.IsProper) : loadDraft d.toJson = d := by
  unfold loadDraft
  rw [upgrade_toJson]
  dsimp only
  rw [Draft.ofJson_toJson h]

end Written

end Kusto.Legacy
