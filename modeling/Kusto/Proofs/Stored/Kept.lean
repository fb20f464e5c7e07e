import Kusto.Proofs.Stored.Mode

/-!
# Kept members — an upgrade touches only what it must

An upgrade sets eight fields of a stored query and no others.  Each step puts one of them in its
place or at the end, so the members stay in their order and the others keep their values
(`Extends`).  A field that is set holds what was stored if that can be used, and else the default,
or what the expression and the mode tell.
-/

open Kusto.Json (Members put lookup_put_self lookup_put_of_ne)

namespace Kusto.Stored

/-! ## Members put in -/

/-- The keys of the members stay in front in their order, new ones are of `own`, and the members
with other keys are the same. -/
structure Extends (own : List String) (ms ns : Members) : Prop where
  keys : ∃ added, ns.map Prod.fst = ms.map Prod.fst ++ added ∧ ∀ key ∈ added, key ∈ own
  others : ns.filter (fun m => m.1 ∉ own) = ms.filter fun m => m.1 ∉ own

section Extends

variable {own : List String} {ms ns ps fs : Members} {key : String} {value : Json}

theorem Extends.refl (own : List String) (ms : Members) : Extends own ms ms :=
  ⟨⟨[], by simp, by simp⟩, rfl⟩

theorem Extends.trans (h : Extends own ms ns) (h' : Extends own ns ps) : Extends own ms ps := by
  obtain ⟨added, hkeys, hown⟩ := h.keys
  obtain ⟨added', hkeys', hown'⟩ := h'.keys
  refine ⟨⟨added ++ added', by rw [hkeys', hkeys, List.append_assoc], ?_⟩,
    h'.others.trans h.others⟩
  intro key hkey
  rcases List.mem_append.mp hkey with hkey | hkey
  · exact hown key hkey
  · exact hown' key hkey

/-- One of the fields is put in its place, or at the end if it was missing. -/
theorem extends_put (hkey : key ∈ own) (value : Json) (ms : Members) :
    Extends own ms (put key value ms) := by
  induction ms with
  | nil => exact ⟨⟨[key], rfl, by simpa using hkey⟩, by simp [hkey]⟩
  | cons m ms ih =>
    obtain ⟨k, v⟩ := m
    by_cases hk : k = key
    · subst hk
      refine ⟨⟨[], by simp [put], by simp⟩, by simp [put, hkey]⟩
    · obtain ⟨added, hkeys, hown⟩ := ih.keys
      refine ⟨⟨added, by simp [put, hk, hkeys], hown⟩, ?_⟩
      rw [put, if_neg hk, List.filter_cons, List.filter_cons, ih.others]

theorem extends_putIf {missing : Bool} (hkey : key ∈ own) (value : Json) (ms : Members) :
    Extends own ms (putIf missing key value ms) := by
  unfold putIf
  split
  · exact extends_put hkey value ms
  · exact .refl own ms

theorem extends_foldl_put (hfs : ∀ m ∈ fs, m.1 ∈ own) (ms : Members) :
    Extends own ms (fs.foldl (fun acc m => put m.1 m.2 acc) ms) := by
  induction fs generalizing ms with
  | nil => exact .refl own ms
  | cons m fs ih =>
    obtain ⟨hm, hfs⟩ := List.forall_mem_cons.mp hfs
    exact (extends_put hm m.2 ms).trans (ih hfs _)

end Extends

/-! ## Fields set -/

/-- The fields that an upgrade sets. -/
def ownKeys : List String :=
  ["database", "clusterUri", "query", "resultFormat", "expression", "rawMode", "querySource",
    "pluginVersion"]

/-- Any value but null stays, and else the default is put in. -/
def HasDefault (ms ns : Members) (key : String) (standard : Json) : Prop :=
  ns.lookup key =
    match ms.lookup key with
    | none | some .null => some standard
    | some v => some v

/-- The members of a stored query after its upgrade. -/
structure IsUpgrade (d : Defaults) (ms ns : Members) : Prop where
  /-- Nothing but the eight fields is touched. -/
  kept : Extends ownKeys ms ns
  database : HasDefault ms ns "database" (.str d.database)
  clusterUri : HasDefault ms ns "clusterUri" (.str d.clusterUri)
  text : HasDefault ms ns "query" (.str d.text)
  format : HasDefault ms ns "resultFormat" (.str d.format.name)
  /-- The expression is brought to the current generation; a missing one is empty. -/
  expression : ns.lookup "expression" =
    some (((ms.lookup "expression").map Legacy.upgrade).getD emptyExpression)
  rawMode_kept : ∀ raw, ms.lookup "rawMode" = some (.bool raw) →
    ns.lookup "rawMode" = some (.bool raw)
  /-- A mode that is not stored is raw exactly if the expression has no source. -/
  rawMode_inferred : (∀ raw, ms.lookup "rawMode" ≠ some (.bool raw)) →
    ∃ raw, ns.lookup "rawMode" = some (.bool raw) ∧
      (raw = true ↔ ∀ v, (ns.lookup "expression").bind (·.member? "from") = some v → v = .null)
  origin_kept : ∀ o : Origin, ms.lookup "querySource" = some (.str o.name) →
    ns.lookup "querySource" = some (.str o.name)
  /-- An origin that is none follows the mode. -/
  origin_matched : (∀ o : Origin, ms.lookup "querySource" ≠ some (.str o.name)) →
    ∃ raw, ns.lookup "rawMode" = some (.bool raw) ∧
      ns.lookup "querySource" = some (.str (if raw then "raw" else "builder"))
  version : ns.lookup "pluginVersion" = some (.str version)

section Upgraded

variable (ms : Members) (d : Defaults)

theorem extends_upgradeMembers : Extends ownKeys ms (upgradeMembers ms d) := by
  have hfilled : Extends ownKeys ms (filled ms d) := by
    refine extends_foldl_put (fun m hm => ?_) ms
    have hkeys : ∀ key ∈ (defaultMembers d).map Prod.fst, key ∈ ownKeys := by
      rw [keys_defaultMembers]
      decide
    exact hkeys m.1 (List.mem_map_of_mem (List.mem_filter.mp hm).1)
  rw [upgradeMembers_eq]
  exact (((hfilled.trans (extends_put (by decide) _ _)).trans (extends_putIf (by decide) _ _)).trans
    (extends_putIf (by decide) _ _)).trans (extends_put (by decide) _ _)

theorem extends_currentMembers : Extends ownKeys ms (currentMembers ms d) := by
  unfold currentMembers
  split
  · exact extends_upgradeMembers ms d
  · exact .refl ownKeys ms

theorem hasDefault_currentMembers {key : String} {standard : Json}
    (hm : (key, standard) ∈ defaultMembers d) :
    HasDefault ms (currentMembers ms d) key standard := by
  have hother : key ∉ ["pluginVersion", "querySource", "rawMode", "expression"] := by
    have hkey : key ∈ (defaultMembers d).map Prod.fst := List.mem_map_of_mem hm
    rw [keys_defaultMembers] at hkey
    have hall : ∀ key ∈ ["database", "clusterUri", "query", "resultFormat"],
        key ∉ ["pluginVersion", "querySource", "rawMode", "expression"] := by decide
    exact hall key hkey
  unfold HasDefault
  rw [lookup_currentMembers ms d hother, lookup_filled_of_mem hm, isUnset]
  cases ms.lookup key with
  | none => rfl
  | some v => cases v <;> rfl

theorem expressionOf_eq :
    expressionOf ms = ((ms.lookup "expression").map Legacy.upgrade).getD emptyExpression := by
  unfold expressionOf
  cases ms.lookup "expression" <;> rfl

example : expressionOf [] = .obj
    [("where", .obj [("type", .str "and"), ("expressions", .arr [])]),
      ("reduce", .obj [("type", .str "and"), ("expressions", .arr [])]),
      ("groupBy", .obj [("type", .str "and"), ("expressions", .arr [])])] := by
  decide

theorem lookup_expression_currentMembers :
    (currentMembers ms d).lookup "expression" = some (expressionOf ms) := by
  unfold currentMembers
  split
  · exact lookup_expression ms d
  · rename_i hcurrent
    -- what is not upgraded has a current expression, which the upgrade leaves as it is
    have hold : hasOldExpression ms = false := by
      unfold isOld at hcurrent
      simp only [Bool.or_eq_true, not_or, Bool.not_eq_true] at hcurrent
      exact hcurrent.1.1.1.2
    unfold hasOldExpression at hold
    unfold expressionOf
    cases he : ms.lookup "expression" with
    | none =>
      rw [he] at hold
      exact absurd hold (by decide)
    | some e =>
      rw [he] at hold
      exact congrArg some (Legacy.upgrade_of_not_isLegacy hold).symm

theorem hasSource_eq_false_iff {e : Json} :
    hasSource e = false ↔ ∀ v, e.member? "from" = some v → v = .null := by
  unfold hasSource
  cases e.member? "from" with
  | none => simp
  | some v => cases v <;> simp

/-- **An upgrade touches only what it must.**  The members of any stored query keep their order,
new ones come behind them, and members other than the eight fields of the upgrade stay as they
are.  Of the eight, a value that can be used is kept: any but null for a field with a default, a
truth value for the mode, a known name for the origin.  The expression is upgraded, a missing mode
is raw exactly if the upgraded expression has no source, and a missing origin follows the mode. -/
theorem upgrade_keeps (ms : Members) (d : Defaults) :
    ∃ ns, upgrade d (.obj ms) = .obj ns ∧ IsUpgrade d ms ns := by
  have hexpression := lookup_expression_currentMembers ms d
  have hrawMode := lookup_rawMode_currentMembers ms d
  have horigin := lookup_of_origin (origin_currentMembers ms d)
  refine ⟨currentMembers ms d, upgrade_obj ms d, ?_⟩
  constructor
  case kept => exact extends_currentMembers ms d
  case database => exact hasDefault_currentMembers ms d (by simp [defaultMembers])
  case clusterUri => exact hasDefault_currentMembers ms d (by simp [defaultMembers])
  case text => exact hasDefault_currentMembers ms d (by simp [defaultMembers])
  case format => exact hasDefault_currentMembers ms d (by simp [defaultMembers])
  case expression => rw [hexpression, expressionOf_eq]
  case rawMode_kept =>
    intro raw hraw
    rw [hrawMode, rawModeOf, rawMode_eq_some_iff.mpr hraw, Option.getD_some]
  case rawMode_inferred =>
    intro hnone
    have hraw : rawMode? ms = none :=
      Option.eq_none_iff_forall_ne_some.mpr fun raw h => hnone raw (rawMode_eq_some_iff.mp h)
    refine ⟨_, hrawMode, ?_⟩
    rw [rawModeOf, hraw, Option.getD_none, Bool.not_eq_true', hasSource_eq_false_iff, hexpression,
      Option.bind_some]
  case origin_kept =>
    intro o ho
    rw [horigin, origin_of_lookup ho, Option.getD_some]
  case origin_matched =>
    intro hnone
    have ho : origin? ms = none :=
      Option.eq_none_iff_forall_ne_some.mpr fun o h => hnone o (lookup_of_origin h)
    refine ⟨_, hrawMode, ?_⟩
    rw [horigin, ho, Option.getD_none]
    cases rawModeOf ms <;> rfl
  case version => exact lookup_version_currentMembers ms d

end Upgraded

end Kusto.Stored
