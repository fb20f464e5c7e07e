import Kusto.Proofs.Legacy.Load
import Kusto.Proofs.Stored.Record
import Kusto.Proofs.Stored.Upgrade

/-!
# Round trip of queries — saving and loading again

A written query is loaded with the current version and with an origin, and with nothing else
changed.  Its expression needs no upgrade, and none of its fields is missing, so the defaults do not
matter.
-/

open Kusto.Json (Members put lookup_put_self lookup_put_of_ne)

namespace Kusto.Stored

open Draft (Fault readField getOr orMalformed readField_of_lookup readField_of_lookup_none)

/-- The members hold the fields of a query, all but the draft. -/
structure Holds (ms : Members) (q : Query) : Prop where
  refId : ms.lookup "refId" = some (.str q.refId)
  database : ms.lookup "database" = some (.str q.database)
  clusterUri : ms.lookup "clusterUri" = some (.str q.clusterUri)
  text : ms.lookup "query" = some (.str q.text)
  format : ms.lookup "resultFormat" = some (.str q.format.name)
  rawMode : ms.lookup "rawMode" = some (.bool q.rawMode)
  origin : ms.lookup "querySource" = q.origin.map fun o => .str o.name
  version : ms.lookup "pluginVersion" = some (.str q.version)

section Reading

variable {ms ns : Members} {q : Query}

theorem Holds.congr (h : Holds ms q)
    (heq : ∀ key, key ≠ "expression" → ns.lookup key = ms.lookup key) : Holds ns q where
  refId := (heq _ (by decide)).trans h.refId
  database := (heq _ (by decide)).trans h.database
  clusterUri := (heq _ (by decide)).trans h.clusterUri
  text := (heq _ (by decide)).trans h.text
  format := (heq _ (by decide)).trans h.format
  rawMode := (heq _ (by decide)).trans h.rawMode
  origin := (heq _ (by decide)).trans h.origin
  version := (heq _ (by decide)).trans h.version

theorem lookup_filter_self (ms : Members) (key : String) :
    (ms.filter (·.1 ≠ key)).lookup key = none := by
  rw [List.lookup_eq_none_iff]
  intro m hm
  have hne : m.1 ≠ key := of_decide_eq_true (List.mem_filter.mp hm).2
  simpa using fun e => hne e.symm

theorem lookup_filter_of_ne (ms : Members) {key other : String} (h : other ≠ key) :
    (ms.filter (·.1 ≠ key)).lookup other = ms.lookup other := by
  induction ms with
  | nil => rfl
  | cons m ms ih =>
    obtain ⟨k, v⟩ := m
    by_cases hk : k = key
    · have hother : (other == k) = false := by rw [hk]; simpa using h
      rw [List.filter_cons_of_neg (by simpa using hk), ih, List.lookup_cons, hother]
    · rw [List.filter_cons_of_pos (by simpa using hk), List.lookup_cons, List.lookup_cons, ih]

theorem textField_of_lookup {key value : String} (h : ms.lookup key = some (.str value)) :
    Query.textField ms key = .ok value := by
  unfold Query.textField
  rw [readField_of_lookup h]
  rfl

theorem readFormat_of_lookup {f : ResultFormat}
    (h : ms.lookup "resultFormat" = some (.str f.name)) :
    getOr .table (readField ms "resultFormat" Query.readFormat) = .ok f := by
  rw [readField_of_lookup h]
  show orMalformed (ResultFormat.ofName? f.name) = _
  rw [ResultFormat.ofName?_name]
  rfl

theorem readOrigin_of_lookup {o : Option Origin}
    (h : ms.lookup "querySource" = o.map fun o => .str o.name) :
    getOr none (readField ms "querySource" (Draft.orNull Query.readOrigin)) = .ok o := by
  cases o with
  | none =>
    rw [readField_of_lookup_none h]
    rfl
  | some o =>
    rw [readField_of_lookup h]
    show (orMalformed (Origin.ofName? o.name)).map some = _
    rw [Origin.ofName?_name]
    rfl

/-- The fields of a query are read back; without an expression its draft is empty. -/
theorem ofMembers_of_holds (h : Holds ms q) (he : ms.lookup "expression" = none) :
    Query.ofMembers ms = .ok { q with draft := {} } := by
  have hdraft : getOr {} (readField ms "expression" Draft.ofJson) = .ok {} := by
    rw [readField_of_lookup_none he]
    rfl
  have hraw : getOr false (readField ms "rawMode" fun j => orMalformed j.bool?) =
      .ok q.rawMode := by
    rw [readField_of_lookup h.rawMode]
    rfl
  exact ofMembers_eq_ok_iff.mpr
    { refId := textField_of_lookup h.refId
      database := textField_of_lookup h.database
      clusterUri := textField_of_lookup h.clusterUri
      text := textField_of_lookup h.text
      draft := hdraft
      format := readFormat_of_lookup h.format
      rawMode := hraw
      origin := readOrigin_of_lookup h.origin
      version := textField_of_lookup h.version }

end Reading

/-! ## Written queries -/

section Written

/-- The members of the stored form. -/
def Query.members (q : Query) : Members := q.toJson.members?.getD []

/-- The query with the current version, and with its origin told by the raw mode if it has none. -/
def Query.stamped (q : Query) : Query :=
  { q with version := Stored.version, origin := some (q.origin.getD (.ofRawMode q.rawMode)) }

theorem holds_members (q : Query) : Holds q.members q := by
  obtain ⟨refId, database, clusterUri, text, draft, format, rawMode, origin, version⟩ := q
  cases origin <;> exact ⟨rfl, rfl, rfl, rfl, rfl, rfl, rfl, rfl⟩

theorem lookup_expression_members (q : Query) :
    q.members.lookup "expression" = some q.draft.toJson := by
  obtain ⟨refId, database, clusterUri, text, draft, format, rawMode, origin, version⟩ := q
  cases origin <;> rfl

theorem expressionOf_members (q : Query) : expressionOf q.members = q.draft.toJson := by
  unfold expressionOf
  rw [lookup_expression_members]
  exact Legacy.upgrade_toJson q.draft

theorem rawMode_members (q : Query) : rawMode? q.members = some q.rawMode := by
  unfold rawMode?
  rw [(holds_members q).rawMode]
  rfl

theorem origin_members (q : Query) : origin? q.members = q.origin := by
  unfold origin?
  rw [(holds_members q).origin]
  cases hq : q.origin with
  | none => rfl
  | some o => exact Origin.ofName?_name o

/-- No field of a written query is missing. -/
theorem filled_members (q : Query) (d : Defaults) : filled q.members d = q.members := by
  have hq := holds_members q
  have hempty : missingMembers q.members d = [] := by
    rw [← List.isEmpty_iff, missingMembers_isEmpty]
    intro key hk
    simp only [List.mem_cons, List.not_mem_nil, or_false] at hk
    unfold isUnset
    rcases hk with rfl | rfl | rfl | rfl
    · rw [hq.database]
    · rw [hq.clusterUri]
    · rw [hq.text]
    · rw [hq.format]
  unfold filled
  rw [hempty]
  rfl

theorem holds_upgradeMembers (q : Query) (d : Defaults) :
    Holds (upgradeMembers q.members d) q.stamped := by
  have hq := holds_members q
  -- at most four fields are written, and the others are there already
  have hother : ∀ key, key ∉ ["pluginVersion", "querySource", "rawMode", "expression"] →
      (upgradeMembers q.members d).lookup key = q.members.lookup key := by
    intro key hk
    rw [lookup_upgradeMembers _ d hk, filled_members]
  refine ⟨(hother _ (by decide)).trans hq.refId, (hother _ (by decide)).trans hq.database,
    (hother _ (by decide)).trans hq.clusterUri, (hother _ (by decide)).trans hq.text,
    (hother _ (by decide)).trans hq.format, ?_, ?_, ?_⟩
  · rw [upgradeMembers_eq, lookup_put_of_ne (by decide), lookup_putIf_of_ne (by decide),
      rawMode_members, Option.isNone_some, putIf_false, lookup_put_of_ne (by decide),
      filled_members]
    exact hq.rawMode
  · have hraw : rawModeOf q.members = q.rawMode := by
      unfold rawModeOf
      rw [rawMode_members]
      rfl
    rw [upgradeMembers_eq, lookup_put_of_ne (by decide), origin_members, hraw]
    have horigin := hq.origin
    unfold Query.stamped
    cases ho : q.origin with
    | none =>
      rw [Option.isNone_none, putIf_true, lookup_put_self]
      rfl
    | some o =>
      rw [ho] at horigin
      rw [Option.isNone_some, putIf_false, lookup_putIf_of_ne (by decide),
        lookup_put_of_ne (by decide), filled_members]
      exact horigin
  · rw [upgradeMembers_eq, lookup_put_self]
    rfl

/-- A query that needs no upgrade has its stamp. -/
theorem stamped_of_not_isOld {q : Query} {d : Defaults} (h : isOld q.members d = false) :
    q.stamped = q := by
  have hversion : hasVersion q.members = decide (some q.version = some version) := by
    unfold hasVersion
    rw [(holds_members q).version]
    rfl
  unfold isOld at h
  rw [origin_members, hversion] at h
  simp only [Bool.or_eq_false_iff, Bool.not_eq_false', decide_eq_true_eq, Option.some.injEq] at h
  obtain ⟨⟨-, ho⟩, hv⟩ := h
  obtain ⟨refId, database, clusterUri, text, draft, format, rawMode, origin, version'⟩ := q
  cases origin with
  | none => exact absurd ho (by simp)
  | some o =>
    obtain rfl : version' = version := hv
    rfl

/-- The members from which a written query is loaded. -/
theorem holds_upgrade (q : Query) (d : Defaults) :
    ∃ ms : Members, upgrade d q.toJson = .obj ms ∧ Holds ms q.stamped ∧
      ms.lookup "expression" = some q.draft.toJson := by
  have hobj : q.toJson = .obj q.members := rfl
  cases h : isOld q.members d with
  | false =>
    refine ⟨q.members, ?_, ?_, lookup_expression_members q⟩
    · rw [hobj]
      exact upgrade_of_not_needsUpgrade h
    · rw [stamped_of_not_isOld h]
      exact holds_members q
  | true =>
    refine ⟨upgradeMembers q.members d, ?_, holds_upgradeMembers q d, ?_⟩
    · show (if isOld q.members d = true then Json.obj (upgradeMembers q.members d) else _) = _
      rw [if_pos h]
    · rw [lookup_expression, expressionOf_members]

theorem load_toJson {q : Query} (h : q.draft.IsProper) (d : Defaults) :
    load d q.toJson = q.stamped := by
  obtain ⟨ms, hup, hms, he⟩ := holds_upgrade q d
  have hhead : Query.ofMembers (ms.filter (·.1 ≠ "expression")) =
      .ok { q.stamped with draft := {} } :=
    ofMembers_of_holds (hms.congr fun key hk => lookup_filter_of_ne ms hk)
      (lookup_filter_self ms "expression")
  have hmembers : ((upgrade d q.toJson).members?).getD [] = ms := by
    rw [hup]
    rfl
  unfold load
  dsimp only
  rw [hmembers, hhead, he]
  dsimp only
  rw [Legacy.loadDraft_toJson h]
  rfl

theorem isRaw_stamped (q : Query) : q.stamped.isRaw = q.isRaw := by
  obtain ⟨refId, database, clusterUri, text, draft, format, rawMode, origin, version⟩ := q
  cases origin with
  | none => cases rawMode <;> rfl
  | some o => rfl

end Written

/-- **Saving and loading loses nothing.**  A written query whose draft is proper is loaded with the
current version and with its origin, or the one that its raw mode tells, and with every other field
as it was, whatever the defaults; the same of its text and draft counts.  A proper draft is loaded
as it was written. -/
theorem load_written :
    (∀ (q : Query) (d : Defaults), q.draft.IsProper →
      load d q.toJson = { q with
        version := version, origin := some (q.origin.getD (.ofRawMode q.rawMode)) } ∧
      (load d q.toJson).isRaw = q.isRaw) ∧
    ∀ d : Draft, d.IsProper → Legacy.loadDraft d.toJson = d := by
  refine ⟨fun q d h => ⟨load_toJson h d, ?_⟩, fun d h => Legacy.loadDraft_toJson h⟩
  rw [load_toJson h]
  exact isRaw_stamped q

/-- A query whose names and values are tags of the older generation. -/
def oldTags : Query where
  rawMode := true
  draft := {
    source := some ⟨"expression", .string⟩
    filter := .all [.any [⟨⟨"field", .string⟩,
      ⟨"fieldAndOperator", some (.many [.text "operatorRepeater"]), none⟩⟩]]
    aggregations := .all [⟨⟨"field", .number⟩, ⟨"reduce", .function⟩,
      [⟨"field", .text "", .number⟩]⟩] }

theorem load_oldTags :
    oldTags.draft.IsProper ∧
      load {} oldTags.toJson = { oldTags with version := "0.1.0", origin := some .raw } ∧
      Legacy.loadDraft oldTags.draft.toJson = oldTags.draft := by
  have hproper : oldTags.draft.IsProper := ⟨rfl, by decide, rfl, rfl⟩
  exact ⟨hproper, (load_written.1 oldTags {} hproper).1, load_written.2 oldTags.draft hproper⟩

end Kusto.Stored
