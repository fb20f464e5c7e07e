import Kusto.Proofs.Legacy.Upgrade
import Kusto.Stored.Upgrade

/-!
# Upgraded queries — nothing is left to upgrade

An upgrade sets every field that the guard looks at, and which defaults it used does not matter to
the guard.  So a query is changed exactly if the guard asks for it, and a second upgrade, with
whatever defaults, leaves it as it is.
-/

open Kusto.Json (Members put lookup_put_self lookup_put_of_ne)

namespace Kusto.Stored

/-! ## Fields that are set -/

section Fields

variable {ms fs : Members} {key other : String} {value : Json}

theorem isUnset_congr {ns : Members} (h : ms.lookup key = ns.lookup key) :
    isUnset ms key = isUnset ns key := by
  unfold isUnset
  rw [h]

theorem isUnset_put_self (h : value ≠ .null) : isUnset (put key value ms) key = false := by
  unfold isUnset
  rw [lookup_put_self]
  cases value with
  | null => exact absurd rfl h
  | _ => rfl

/-- A field that was set stays so, if no field is put in as null. -/
theorem isUnset_foldl_put (hfs : ∀ m ∈ fs, m.2 ≠ .null)
    (h : isUnset ms key = true → key ∈ fs.map Prod.fst) :
    isUnset (fs.foldl (fun acc m => put m.1 m.2 acc) ms) key = false := by
  induction fs generalizing ms with
  | nil => simpa using h
  | cons m fs ih =>
    refine ih (fun n hn => hfs n (by simp [hn])) fun hunset => ?_
    by_cases hk : key = m.1
    · rw [hk, isUnset_put_self (hfs m (by simp))] at hunset
      exact absurd hunset (by decide)
    · rw [isUnset_congr (lookup_put_of_ne hk m.2 ms)] at hunset
      have hmem := h hunset
      rw [List.map_cons] at hmem
      exact (List.mem_cons.mp hmem).resolve_left hk

theorem lookup_foldl_put (h : key ∉ fs.map Prod.fst) :
    (fs.foldl (fun acc m => put m.1 m.2 acc) ms).lookup key = ms.lookup key := by
  induction fs generalizing ms with
  | nil => rfl
  | cons m fs ih =>
    rw [List.map_cons, List.mem_cons, not_or] at h
    rw [List.foldl_cons, ih h.2, lookup_put_of_ne h.1]

@[simp] theorem putIf_true : putIf true key value ms = put key value ms := rfl

@[simp] theorem putIf_false : putIf false key value ms = ms := rfl

theorem lookup_putIf_of_ne {missing : Bool} (h : other ≠ key) :
    (putIf missing key value ms).lookup other = ms.lookup other := by
  unfold putIf
  split
  · exact lookup_put_of_ne h value ms
  · rfl

/-- A field that is put in where it cannot be read can be read. -/
theorem isNone_putIf {α : Type} (read : Option Json → Option α)
    (hfs : fs.lookup key = ms.lookup key)
    (hv : (read (some value)).isNone = false) :
    (read ((putIf (read (ms.lookup key)).isNone key value fs).lookup key)).isNone = false := by
  unfold putIf
  split
  · rw [lookup_put_self]
    exact hv
  · rename_i h
    rw [hfs]
    exact Bool.eq_false_iff.mpr h

end Fields

/-! ## Fields with defaults -/

section Defaults

variable {ms : Members}

/-- Whether a default is missing does not depend on the defaults. -/
theorem missingMembers_isEmpty (ms : Members) (d : Defaults) :
    (missingMembers ms d).isEmpty = true ↔
      ∀ key ∈ ["database", "clusterUri", "query", "resultFormat"], isUnset ms key = false := by
  simp [missingMembers, defaultMembers]

theorem isOld_congr (ms : Members) (d e : Defaults) : isOld ms d = isOld ms e := by
  have h : (missingMembers ms d).isEmpty = (missingMembers ms e).isEmpty := by
    rw [Bool.eq_iff_iff, missingMembers_isEmpty, missingMembers_isEmpty]
  unfold isOld
  rw [h]

/-- The members with the missing defaults put in. -/
def filled (ms : Members) (d : Defaults) : Members :=
  (missingMembers ms d).foldl (fun acc m => put m.1 m.2 acc) ms

theorem isUnset_filled (d : Defaults) {key : String}
    (hk : key ∈ ["database", "clusterUri", "query", "resultFormat"]) :
    isUnset (filled ms d) key = false := by
  have hkeys : (defaultMembers d).map Prod.fst =
      ["database", "clusterUri", "query", "resultFormat"] := rfl
  refine isUnset_foldl_put (fun m hm => ?_) fun hunset => ?_
  · have hm' := (List.mem_filter.mp hm).1
    simp only [defaultMembers, List.mem_cons, List.not_mem_nil, or_false] at hm'
    rcases hm' with rfl | rfl | rfl | rfl <;> simp
  · rw [← hkeys] at hk
    obtain ⟨m, hm, rfl⟩ := List.mem_map.mp hk
    exact List.mem_map.mpr ⟨m, List.mem_filter.mpr ⟨hm, hunset⟩, rfl⟩

theorem lookup_filled (d : Defaults) {key : String}
    (hk : key ∉ ["database", "clusterUri", "query", "resultFormat"]) :
    (filled ms d).lookup key = ms.lookup key := by
  refine lookup_foldl_put fun hm => hk ?_
  have hkeys : (defaultMembers d).map Prod.fst =
      ["database", "clusterUri", "query", "resultFormat"] := rfl
  obtain ⟨m, hmissing, rfl⟩ := List.mem_map.mp hm
  rw [← hkeys]
  exact List.mem_map_of_mem (List.mem_filter.mp hmissing).1

end Defaults

/-! ## Upgraded members -/

section Members

variable (ms : Members) (d : Defaults)

theorem upgradeMembers_eq : upgradeMembers ms d =
    put "pluginVersion" (.str version)
      (putIf (origin? ms).isNone "querySource" (.str (Origin.ofRawMode (rawModeOf ms)).name)
        (putIf (rawMode? ms).isNone "rawMode" (.bool (rawModeOf ms))
          (put "expression" (expressionOf ms) (filled ms d)))) := rfl

/-- A field that the upgrade fills from the defaults or leaves alone. -/
theorem lookup_upgradeMembers {key : String}
    (hk : key ∉ ["pluginVersion", "querySource", "rawMode", "expression"]) :
    (upgradeMembers ms d).lookup key = (filled ms d).lookup key := by
  simp only [List.mem_cons, List.not_mem_nil, or_false, not_or] at hk
  obtain ⟨h1, h2, h3, h4⟩ := hk
  rw [upgradeMembers_eq, lookup_put_of_ne h1, lookup_putIf_of_ne h2, lookup_putIf_of_ne h3,
    lookup_put_of_ne h4]

theorem lookup_expression :
    (upgradeMembers ms d).lookup "expression" = some (expressionOf ms) := by
  rw [upgradeMembers_eq, lookup_put_of_ne (by decide), lookup_putIf_of_ne (by decide),
    lookup_putIf_of_ne (by decide), lookup_put_self]

theorem isLegacy_expressionOf : Legacy.isLegacy (expressionOf ms) = false := by
  unfold expressionOf
  split
  · exact Legacy.isLegacy_upgrade _
  · decide

theorem rawMode_upgradeMembers : (rawMode? (upgradeMembers ms d)).isNone = false := by
  unfold rawMode?
  rw [upgradeMembers_eq, lookup_put_of_ne (by decide), lookup_putIf_of_ne (by decide)]
  refine isNone_putIf (fun v => v.bind Json.bool?) ?_ rfl
  rw [lookup_put_of_ne (by decide), lookup_filled d (by decide)]

theorem origin_upgradeMembers : (origin? (upgradeMembers ms d)).isNone = false := by
  unfold origin?
  rw [upgradeMembers_eq, lookup_put_of_ne (by decide)]
  refine isNone_putIf (fun v => (v.bind Json.text?).bind Origin.ofName?) ?_ ?_
  · rw [lookup_putIf_of_ne (by decide), lookup_put_of_ne (by decide),
      lookup_filled d (by decide)]
  · show (Origin.ofName? (Origin.name _)).isNone = false
    rw [Origin.ofName?_name]
    rfl

theorem hasVersion_upgradeMembers : hasVersion (upgradeMembers ms d) = true := by
  unfold hasVersion
  rw [upgradeMembers_eq, lookup_put_self]
  rfl

/-- **Upgraded members need no upgrade**, whatever the defaults. -/
theorem isOld_upgradeMembers (e : Defaults) : isOld (upgradeMembers ms d) e = false := by
  have hmissing : (missingMembers (upgradeMembers ms d) e).isEmpty = true := by
    refine (missingMembers_isEmpty _ e).mpr fun key hk => ?_
    have hother : key ∉ ["pluginVersion", "querySource", "rawMode", "expression"] := by
      simp only [List.mem_cons, List.not_mem_nil, or_false] at hk
      rcases hk with rfl | rfl | rfl | rfl <;> decide
    rw [isUnset_congr (lookup_upgradeMembers ms d hother)]
    exact isUnset_filled d hk
  have hexpression : hasOldExpression (upgradeMembers ms d) = false := by
    unfold hasOldExpression
    rw [lookup_expression]
    exact isLegacy_expressionOf ms
  unfold isOld
  rw [hmissing, hexpression, rawMode_upgradeMembers, origin_upgradeMembers,
    hasVersion_upgradeMembers]
  rfl

end Members

/-! ## Upgraded queries -/

theorem upgrade_of_not_needsUpgrade {d : Defaults} {j : Json} (h : needsUpgrade d j = false) :
    upgrade d j = j := by
  unfold upgrade
  rw [h]
  rfl

theorem needsUpgrade_congr (d e : Defaults) (j : Json) : needsUpgrade d j = needsUpgrade e j := by
  cases j with
  | obj ms => exact isOld_congr ms d e
  | _ => rfl

theorem needsUpgrade_upgrade (d e : Defaults) (j : Json) :
    needsUpgrade e (upgrade d j) = false := by
  cases h : needsUpgrade d j with
  | false => rw [upgrade_of_not_needsUpgrade h, needsUpgrade_congr e d, h]
  | true =>
    have hup : upgrade d j = .obj (upgradeMembers (j.members?.getD []) d) := by
      unfold upgrade
      rw [h]
      rfl
    rw [hup]
    exact isOld_upgradeMembers _ d e

/-- An upgrade changes the queries that need one and no others. -/
theorem upgrade_ne_iff (d : Defaults) (j : Json) :
    upgrade d j ≠ j ↔ needsUpgrade d j = true := by
  constructor
  · intro h
    cases hj : needsUpgrade d j with
    | true => rfl
    | false => exact absurd (upgrade_of_not_needsUpgrade hj) h
  · intro h heq
    have hup := needsUpgrade_upgrade d d j
    rw [heq, h] at hup
    exact absurd hup (by decide)

/-- **Upgrades are idempotent and their guards are exact**, for expressions and for queries: what
is upgraded differs if and only if the guard holds, and no second upgrade changes it, whatever the
defaults of the two. -/
theorem upgrade_exact :
    (∀ j, (Legacy.upgrade j ≠ j ↔ Legacy.isLegacy j = true) ∧
      Legacy.isLegacy (Legacy.upgrade j) = false ∧
      Legacy.upgrade (Legacy.upgrade j) = Legacy.upgrade j) ∧
    ∀ (d e : Defaults) (j : Json), (upgrade d j ≠ j ↔ needsUpgrade d j = true) ∧
      needsUpgrade e (upgrade d j) = false ∧ upgrade e (upgrade d j) = upgrade d j := by
  refine ⟨fun j => ⟨Legacy.upgrade_ne_iff j, Legacy.isLegacy_upgrade j, ?_⟩, fun d e j =>
    ⟨upgrade_ne_iff d j, needsUpgrade_upgrade d e j, ?_⟩⟩
  · exact Legacy.upgrade_of_not_isLegacy (Legacy.isLegacy_upgrade j)
  · exact upgrade_of_not_needsUpgrade (needsUpgrade_upgrade d e j)

end Kusto.Stored
