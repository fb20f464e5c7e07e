import Kusto.Proofs.Draft.RoundTrip
import Kusto.Proofs.Legacy.Upgrade
import Kusto.Proofs.Outcome

/-!
# Clauses on their own — a faulty clause costs only itself

An expression is read whole, or else clause by clause.  The two ways agree wherever both give a
draft, so a loaded draft holds what can be read of each clause, whatever the others are.  Of two
expressions of one generation that differ in one clause the drafts differ in that clause only
(`loadDraft_eachClause`).
-/

open Kusto.Json (Members)

namespace Kusto.Draft

/-! ## What can be read of a value -/

section Values

variable {α : Type} {read : Json → Except Fault α} {standard : α}

/-- What is held is what was read of a value, and the standard where the value is missing or
faulty. -/
inductive Holds (read : Json → Except Fault α) (standard : α) : Option Json → α → Prop
  | missing : Holds read standard none standard
  | faulty {j : Json} {f : Fault} (h : read j = .error f) : Holds read standard (some j) standard
  | read {j : Json} {v : α} (h : read j = .ok v) : Holds read standard (some j) v

theorem Holds.unique {o : Option Json} {v w : α} (hv : Holds read standard o v)
    (hw : Holds read standard o w) : v = w := by
  cases hv with
  | missing =>
    cases hw with
    | missing => rfl
  | faulty h =>
    cases hw with
    | faulty => rfl
    | read h' => exact absurd (h.symm.trans h') (by simp)
  | read h =>
    cases hw with
    | faulty h' => exact absurd (h.symm.trans h') (by simp)
    | read h' => exact Except.ok.inj (h.symm.trans h')

theorem holds_toOption (o : Option Json) :
    Holds read standard o ((o.bind fun v => (read v).toOption).getD standard) := by
  cases o with
  | none => exact .missing
  | some j =>
    cases h : read j with
    | error f =>
      rw [Option.bind_some, h]
      exact .faulty h
    | ok v =>
      rw [Option.bind_some, h]
      exact .read h

theorem holds_of_getOr {ms : Members} {key : String} {v : α}
    (h : getOr standard (readField ms key read) = .ok v) :
    Holds read standard (ms.lookup key) v := by
  cases hj : ms.lookup key with
  | none =>
    rw [readField_of_lookup_none hj] at h
    obtain rfl := Except.ok.inj h
    exact .missing
  | some j =>
    rw [readField_of_lookup hj] at h
    exact .read h

/-- A source that is null counts as faulty, since no source is stored as null. -/
theorem holds_of_orNull {ms : Members} {key : String} {v : Option Property}
    (h : getOr none (readField ms key (orNull readSource)) = .ok v) :
    Holds (fun j => (readSource j).map some) none (ms.lookup key) v := by
  cases hj : ms.lookup key with
  | none =>
    rw [readField_of_lookup_none hj] at h
    obtain rfl := Except.ok.inj h
    exact .missing
  | some j =>
    rw [readField_of_lookup hj] at h
    cases j with
    | null =>
      obtain rfl := Except.ok.inj h
      exact .faulty rfl
    | bool _ | num _ | str _ | arr _ | obj _ => exact .read h

theorem holds_source (o : Option Json) :
    Holds (fun j => (readSource j).map some) none o (o.bind fun v => (readSource v).toOption) := by
  cases o with
  | none => exact .missing
  | some j =>
    cases h : readSource j with
    | error f =>
      rw [Option.bind_some, h]
      exact .faulty (map_eq_error_iff.mpr h)
    | ok p =>
      rw [Option.bind_some, h]
      exact .read (map_eq_ok_iff.mpr ⟨p, h, rfl⟩)

end Values

/-! ## What can be read of an expression -/

section Expressions

/-- The draft holds what can be read of each clause of an expression: no source, and empty clauses,
where there is nothing that can be read. -/
structure HoldsClauses (j : Json) (d : Draft) : Prop where
  source : Holds (fun v => (readSource v).map some) none (j.member? "from") d.source
  filter : Holds readFilter {} (j.member? "where") d.filter
  aggregations : Holds readAggregations {} (j.member? "reduce") d.aggregations
  groupings : Holds readGroupings {} (j.member? "groupBy") d.groupings

theorem HoldsClauses.unique {j : Json} {d e : Draft} (hd : HoldsClauses j d)
    (he : HoldsClauses j e) : d = e := by
  cases d with
  | mk source filter aggregations groupings =>
    obtain rfl := hd.source.unique he.source
    obtain rfl := hd.filter.unique he.filter
    obtain rfl := hd.aggregations.unique he.aggregations
    obtain rfl := hd.groupings.unique he.groupings
    rfl

theorem holdsClauses_ofClauses (j : Json) : HoldsClauses j (ofClauses j) where
  source := holds_source _
  filter := holds_toOption _
  aggregations := holds_toOption _
  groupings := holds_toOption _

/-- A draft that is read whole holds what can be read of each clause. -/
theorem holdsClauses_of_ofJson {ms : Members} {d : Draft} (h : Draft.ofJson (.obj ms) = .ok d) :
    HoldsClauses (.obj ms) d := by
  have hmembers : Draft.ofMembers ms = .ok d := h
  unfold Draft.ofMembers at hmembers
  obtain ⟨_, -, h⟩ := exists_of_bind_ok hmembers
  obtain ⟨source, hsource, h⟩ := exists_of_bind_ok h
  obtain ⟨filter, hfilter, h⟩ := exists_of_bind_ok h
  obtain ⟨aggregations, haggregations, h⟩ := exists_of_bind_ok h
  obtain ⟨groupings, hgroupings, h⟩ := exists_of_bind_ok h
  obtain rfl := Except.ok.inj h
  exact ⟨holds_of_orNull hsource, holds_of_getOr hfilter, holds_of_getOr haggregations,
    holds_of_getOr hgroupings⟩

end Expressions

end Kusto.Draft

namespace Kusto.Legacy

open Draft (HoldsClauses holdsClauses_ofClauses holdsClauses_of_ofJson)

/-! ## Upgraded clauses -/

section Upgraded

variable {ms ns : Members} {clause : String}

theorem member_from_rebuild (ms : Members) :
    (rebuild ms).member? "from" = (ms.lookup "from").bind source? := by
  unfold rebuild
  cases (ms.lookup "from").bind source? <;> rfl

theorem member_where_rebuild (ms : Members) :
    (rebuild ms).member? "where" =
      some (clauseJson .all ((rebuilt ms "where" "fieldAndOperator" condition?).map
        fun c => clauseJson .any [c])) := by
  unfold rebuild
  cases (ms.lookup "from").bind source? <;> rfl

theorem member_reduce_rebuild (ms : Members) :
    (rebuild ms).member? "reduce" =
      some (clauseJson .all (rebuilt ms "reduce" "reduce" aggregation?)) := by
  unfold rebuild
  cases (ms.lookup "from").bind source? <;> rfl

theorem member_groupBy_rebuild (ms : Members) :
    (rebuild ms).member? "groupBy" =
      some (clauseJson .all (rebuilt ms "groupBy" "groupBy" grouping?)) := by
  unfold rebuild
  cases (ms.lookup "from").bind source? <;> rfl

/-- Each clause is rebuilt from what stood in its place. -/
theorem member_rebuild (h : clause ∈ clauseNames) (hlookup : ms.lookup clause = ns.lookup clause) :
    (rebuild ms).member? clause = (rebuild ns).member? clause := by
  have hrebuilt : ∀ tag item, rebuilt ms clause tag item = rebuilt ns clause tag item := by
    intro tag item
    unfold rebuilt
    rw [hlookup]
  simp only [clauseNames, List.mem_cons, List.not_mem_nil, or_false] at h
  rcases h with rfl | rfl | rfl | rfl
  · rw [member_from_rebuild, member_from_rebuild, hlookup]
  · rw [member_where_rebuild, member_where_rebuild, hrebuilt]
  · rw [member_reduce_rebuild, member_reduce_rebuild, hrebuilt]
  · rw [member_groupBy_rebuild, member_groupBy_rebuild, hrebuilt]

/-- What an upgrade makes of a clause is told by the clause and the generation. -/
theorem member_upgrade (h : clause ∈ clauseNames) (hlookup : ms.lookup clause = ns.lookup clause)
    (hlegacy : isLegacy (.obj ms) = isLegacy (.obj ns)) :
    (upgrade (.obj ms)).member? clause = (upgrade (.obj ns)).member? clause := by
  cases hms : isLegacy (.obj ms) with
  | true =>
    rw [upgrade_of_isLegacy hms, upgrade_of_isLegacy (hlegacy ▸ hms)]
    exact member_rebuild h hlookup
  | false =>
    rw [upgrade_of_not_isLegacy hms, upgrade_of_not_isLegacy (hlegacy ▸ hms)]
    exact hlookup

/-- An object is upgraded to an object. -/
theorem exists_upgrade_obj (ms : Members) : ∃ fs, upgrade (.obj ms) = .obj fs := by
  cases hms : isLegacy (.obj ms) with
  | true => exact ⟨_, upgrade_of_isLegacy hms⟩
  | false => exact ⟨ms, upgrade_of_not_isLegacy hms⟩

end Upgraded

/-! ## Loaded clauses -/

section Loaded

/-- A loaded draft holds what can be read of each clause. -/
theorem holdsClauses_loadDraft (ms : Members) :
    HoldsClauses (upgrade (.obj ms)) (loadDraft (.obj ms)) := by
  obtain ⟨fs, hfs⟩ := exists_upgrade_obj ms
  unfold loadDraft
  rw [hfs]
  dsimp only
  split
  · rename_i d hd
    exact holdsClauses_of_ofJson hd
  · exact holdsClauses_ofClauses (.obj fs)

/-- The drafts agree in all clauses but one. -/
structure AgreeExcept (clause : String) (d e : Draft) : Prop where
  source : clause ≠ "from" → d.source = e.source
  filter : clause ≠ "where" → d.filter = e.filter
  aggregations : clause ≠ "reduce" → d.aggregations = e.aggregations
  groupings : clause ≠ "groupBy" → d.groupings = e.groupings

theorem agreeExcept_of_member {j k : Json} {d e : Draft} {clause : String}
    (hd : HoldsClauses j d) (he : HoldsClauses k e)
    (h : ∀ other ∈ clauseNames, clause ≠ other → j.member? other = k.member? other) :
    AgreeExcept clause d e where
  source hne := hd.source.unique (h "from" (by decide) hne ▸ he.source)
  filter hne := hd.filter.unique (h "where" (by decide) hne ▸ he.filter)
  aggregations hne := hd.aggregations.unique (h "reduce" (by decide) hne ▸ he.aggregations)
  groupings hne := hd.groupings.unique (h "groupBy" (by decide) hne ▸ he.groupings)

/-- **Each clause is loaded on its own.**  A draft that is loaded, whole or clause by clause, holds
what can be read of each clause of the upgraded expression, so both ways give the same draft.  If
two expressions of one generation have the same clauses but one, so have their drafts. -/
theorem loadDraft_eachClause (ms : Members) :
    HoldsClauses (upgrade (.obj ms)) (loadDraft (.obj ms)) ∧
      loadDraft (.obj ms) = Draft.ofClauses (upgrade (.obj ms)) ∧
      ∀ (ns : Members) (clause : String), isLegacy (.obj ms) = isLegacy (.obj ns) →
        (∀ other ∈ clauseNames, clause ≠ other → ms.lookup other = ns.lookup other) →
          AgreeExcept clause (loadDraft (.obj ms)) (loadDraft (.obj ns)) := by
  have hms := holdsClauses_loadDraft ms
  refine ⟨hms, hms.unique (holdsClauses_ofClauses _), fun ns clause hlegacy hothers => ?_⟩
  refine agreeExcept_of_member hms (holdsClauses_loadDraft ns) fun other hother hne => ?_
  exact member_upgrade hother (hothers other hother hne) hlegacy

/-- An expression that counts, beside a filter. -/
def countBeside (filter : Json) : Members :=
  [("where", filter),
    ("reduce", clauseJson .all [
      .obj [("type", .str "reduce"),
        ("property", .obj [("name", .str "*"), ("type", .str "string")]),
        ("reduce", .obj [("name", .str "count"), ("type", .str "function")])]])]

/-- A filter that is a disjunction is none, but the summary beside it is kept. -/
theorem loadDraft_countBeside :
    (loadDraft (.obj (countBeside (clauseJson .any [])))).filter = {} ∧
      (loadDraft (.obj (countBeside (clauseJson .any [])))).aggregations.items =
        [⟨⟨"*", .string⟩, ⟨"count", .function⟩, []⟩] ∧
      AgreeExcept "where" (loadDraft (.obj (countBeside (clauseJson .any []))))
        (loadDraft (.obj (countBeside (clauseJson .all [])))) := by
  have hothers : ∀ other ∈ clauseNames, "where" ≠ other →
      (countBeside (clauseJson .any [])).lookup other =
        (countBeside (clauseJson .all [])).lookup other := by decide
  exact ⟨by decide, by decide, (loadDraft_eachClause (countBeside (clauseJson .any []))).2.2
    (countBeside (clauseJson .all [])) "where" (by decide) hothers⟩

end Loaded

end Kusto.Legacy
