import Kusto.Legacy.Upgrade

/-!
# Upgraded expressions — never of the older generation again

Names, values and parameters of old nodes are kept as they are, and an old tag may stand in them.
But each of them stands in a node of the current generation, so whatever shows an old tag in an
upgraded clause shows a current one too (`Covered`).
-/

open Kusto.Json (Members)

namespace Kusto.Legacy

/-! ## Covered marks -/

/-- Old nodes are seen only where current ones are. -/
def Marks.Covered (m : Marks) : Prop := m.legacy = true → m.current = true

namespace Marks

variable {a b : Marks}

theorem covered_empty : Covered {} := fun h => absurd h (by decide)

theorem covered_of_current (h : a.current = true) : a.Covered := fun _ => h

theorem Covered.join (ha : a.Covered) (hb : b.Covered) : (a.join b).Covered := by
  intro h
  show (a.current || b.current) = true
  rcases Bool.or_eq_true_iff.mp h with h | h
  · rw [ha h, Bool.true_or]
  · rw [hb h, Bool.or_true]

theorem current_join_left (h : a.current = true) (b : Marks) : (a.join b).current = true := by
  show (a.current || b.current) = true
  rw [h, Bool.true_or]

theorem covered_ofItems {xs : List Json} (h : ∀ x ∈ xs, (ofJson x).Covered) :
    (ofItems xs).Covered := by
  induction xs with
  | nil => exact covered_empty
  | cons x xs ih => exact (h x (by simp)).join (ih fun y hy => h y (by simp [hy]))

/-- An object whose own members show a current node is covered, whatever is in it. -/
theorem covered_obj {ms : Members} (h : (ofMembers ms).current = true) :
    (ofJson (.obj ms)).Covered :=
  covered_of_current (current_join_left h _)

end Marks

open Marks

/-! ## Rebuilt clauses -/

section Rebuilt

variable {node item : Json}

theorem covered_condition (h : condition? node = some item) : (ofJson item).Covered := by
  obtain ⟨p, -, rfl⟩ := Option.map_eq_some_iff.mp h
  exact covered_obj rfl

theorem covered_aggregation (h : aggregation? node = some item) : (ofJson item).Covered := by
  obtain ⟨p, -, rfl⟩ := Option.map_eq_some_iff.mp h
  exact covered_obj rfl

theorem covered_grouping (h : grouping? node = some item) : (ofJson item).Covered := by
  obtain ⟨p, -, rfl⟩ := Option.map_eq_some_iff.mp h
  exact covered_obj rfl

/-- The tag of a clause shows nothing, so the items decide. -/
theorem covered_clauseJson (c : Connective) {items : List Json}
    (h : ∀ x ∈ items, (ofJson x).Covered) : (ofJson (clauseJson c items)).Covered := by
  have htag : ofMembers [("type", .str c.word), ("expressions", .arr items)] = {} := by
    cases c <;> rfl
  have hitems : (ofValues [("type", .str c.word), ("expressions", .arr items)]).Covered :=
    covered_empty.join ((covered_ofItems h).join covered_empty)
  have hboth := (htag ▸ covered_empty : (ofMembers _).Covered).join hitems
  exact hboth

theorem covered_rebuilt {ms : Members} {clause tag : String} {rebuild : Json → Option Json}
    (h : ∀ node item, rebuild node = some item → (ofJson item).Covered) :
    ∀ x ∈ rebuilt ms clause tag rebuild, (ofJson x).Covered := by
  intro x hx
  unfold rebuilt at hx
  split at hx
  · obtain ⟨node, -, hnode⟩ := List.mem_filterMap.mp hx
    exact h node x hnode
  · exact absurd hx List.not_mem_nil

theorem covered_source (h : source? node = some item) : (ofJson item).Covered := by
  obtain ⟨p, -, rfl⟩ := Option.map_eq_some_iff.mp h
  exact covered_obj rfl

end Rebuilt

/-! ## Upgraded expressions -/

section Upgraded

/-- A rebuilt source names no table in an expression of its own. -/
theorem path_source {node item : Json} (h : source? node = some item) :
    item.path? ["expression", "value"] = none := by
  obtain ⟨p, -, rfl⟩ := Option.map_eq_some_iff.mp h
  rfl

theorem sourceMarks_of_path {ms : Members}
    (h : (ms.lookup "from").bind (Json.path? ["expression", "value"]) = none) :
    sourceMarks ms = {} := by
  unfold sourceMarks
  rw [h]

theorem sourceMarks_rebuild (ms : Members) (rest : Members) (hr : rest.lookup "from" = none) :
    sourceMarks (Json.present "from" id ((ms.lookup "from").bind source?) ++ rest) = {} := by
  refine sourceMarks_of_path ?_
  cases hs : (ms.lookup "from").bind source? with
  | none =>
    show (rest.lookup "from").bind _ = none
    rw [hr]
    rfl
  | some s =>
    obtain ⟨j, -, hj⟩ := Option.bind_eq_some_iff.mp hs
    exact path_source hj

/-- A source, if there is one, and other members. -/
theorem covered_present {α : Type} {key : String} {write : α → Json} {source : Option α}
    (hs : ∀ s, source = some s → (ofJson (write s)).Covered) {rest : Members}
    (hr : ∀ m ∈ rest, (ofJson m.2).Covered) :
    ∀ m ∈ Json.present key write source ++ rest, (ofJson m.2).Covered := by
  intro m hm
  rcases List.mem_append.mp hm with hm | hm
  · cases source with
    | none => exact absurd hm List.not_mem_nil
    | some s =>
      obtain rfl := List.mem_singleton.mp hm
      exact hs s rfl
  · exact hr m hm

theorem covered_clauseMarks {ms : Members} (h : ∀ m ∈ ms, (ofJson m.2).Covered)
    (clause : String) : (clauseMarks ms clause).Covered := by
  unfold clauseMarks
  split
  · rename_i v hv
    obtain ⟨before, after, rfl, -⟩ := List.lookup_eq_some_iff.mp hv
    exact h (clause, v) (by simp)
  · exact covered_empty

theorem covered_marks {ms : Members} (hs : sourceMarks ms = {})
    (h : ∀ m ∈ ms, (ofJson m.2).Covered) : (marks ms).Covered := by
  have hsource : (sourceMarks ms).Covered := hs ▸ covered_empty
  have hfold : ∀ (clauses : List String) (m : Marks), m.Covered →
      (clauses.foldl (fun m c => m.join (clauseMarks ms c)) m).Covered := by
    intro clauses
    induction clauses with
    | nil => exact fun m hm => hm
    | cons c clauses ih => exact fun m hm => ih _ (hm.join (covered_clauseMarks h c))
  exact hfold clauseNames _ hsource

theorem isLegacy_of_covered {ms : Members} (h : (marks ms).Covered) :
    isLegacy (.obj ms) = false := by
  have hshape : shape (.obj ms) ≠ .legacy := by
    unfold shape
    dsimp only
    cases hm : marks ms with
    | mk old current =>
      rw [hm] at h
      cases old with
      | false => simp
      | true =>
        obtain rfl : current = true := h rfl
        simp
  exact decide_eq_false hshape

/-- **A rebuilt expression is of the current generation.** -/
theorem isLegacy_rebuild (ms : Members) : isLegacy (rebuild ms) = false := by
  refine isLegacy_of_covered (covered_marks (sourceMarks_rebuild ms _ rfl) ?_)
  -- each condition is in a group of its own, and the group shows nothing old either
  have hconditions : ∀ x ∈ (rebuilt ms "where" "fieldAndOperator" condition?).map
      (fun c => clauseJson .any [c]), (ofJson x).Covered := by
    intro x hx
    obtain ⟨c, hc, rfl⟩ := List.mem_map.mp hx
    refine covered_clauseJson .any fun y hy => ?_
    rw [List.mem_singleton.mp hy]
    exact covered_rebuilt (fun _ _ => covered_condition) c hc
  refine covered_present (fun s hs => ?_) fun m hm => ?_
  · obtain ⟨j, -, hj⟩ := Option.bind_eq_some_iff.mp hs
    exact covered_source hj
  · simp only [List.mem_cons, List.not_mem_nil, or_false] at hm
    rcases hm with rfl | rfl | rfl
    · exact covered_clauseJson .all hconditions
    · exact covered_clauseJson .all (covered_rebuilt fun _ _ => covered_aggregation)
    · exact covered_clauseJson .all (covered_rebuilt fun _ _ => covered_grouping)

theorem upgrade_of_not_isLegacy {j : Json} (h : isLegacy j = false) : upgrade j = j := by
  unfold upgrade
  rw [h]
  rfl

theorem upgrade_of_isLegacy {j : Json} (h : isLegacy j = true) :
    upgrade j = rebuild (j.members?.getD []) := by
  unfold upgrade
  rw [h]
  rfl

theorem isLegacy_upgrade (j : Json) : isLegacy (upgrade j) = false := by
  cases h : isLegacy j with
  | false => rwa [upgrade_of_not_isLegacy h]
  | true =>
    rw [upgrade_of_isLegacy h]
    exact isLegacy_rebuild _

/-- An upgrade changes the expressions of the older generation and no others. -/
theorem upgrade_ne_iff (j : Json) : upgrade j ≠ j ↔ isLegacy j = true := by
  constructor
  · intro h
    cases hj : isLegacy j with
    | true => rfl
    | false => exact absurd (upgrade_of_not_isLegacy hj) h
  · intro h heq
    have hup := isLegacy_upgrade j
    rw [heq, h] at hup
    exact absurd hup (by decide)

end Upgraded

end Kusto.Legacy
