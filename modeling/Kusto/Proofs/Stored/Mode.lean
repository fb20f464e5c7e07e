import Kusto.Proofs.Stored.RoundTrip

/-!
# Modes of queries — raw or builder

A loaded query is raw if the stored one asks for it: by its origin, else by its raw mode, else by
having no source.  This needs the fields that tell neither the mode nor the expression to be
readable.  Where one of them is not, the query is loaded with the defaults, and those are of the
builder.
-/

open Kusto.Json (Members put lookup_put_self lookup_put_of_ne)

namespace Kusto.Stored

open Draft (readField getOr orMalformed readField_of_lookup readField_of_lookup_none)

/-- The stored query asks to be raw: by its origin, else by its raw mode, else by having no
source. -/
def asksRaw (ms : Members) : Bool :=
  if ms.lookup "querySource" = some (.str "raw") then true
  else if ms.lookup "querySource" = some (.str "builder") then false
  else
    match ms.lookup "rawMode" with
    | some (.bool raw) => raw
    | _ => !hasSource (expressionOf ms)

/-- The value is a text. -/
def IsText (j : Json) : Prop := ∃ s, j = .str s

/-- The value names a result format. -/
def NamesFormat (j : Json) : Prop :=
  ∃ f : ResultFormat, j = .str f.name ∨ j = .obj [(f.name, .null)]

/-- The fields that tell neither the mode nor the expression can be read, if they are there.  Those
with a default may be null. -/
structure IsReadable (ms : Members) : Prop where
  refId : ∀ j, ms.lookup "refId" = some j → IsText j
  texts : ∀ key ∈ ["database", "clusterUri", "query"], ∀ j,
    ms.lookup key = some j → j ≠ .null → IsText j
  format : ∀ j, ms.lookup "resultFormat" = some j → j ≠ .null → NamesFormat j

/-! ## Fields -/

section Fields

variable {ms : Members} {key : String}

theorem textField_isOk_iff :
    (∃ s, Query.textField ms key = .ok s) ↔ ∀ j, ms.lookup key = some j → IsText j := by
  unfold Query.textField
  cases h : ms.lookup key with
  | none =>
    rw [readField_of_lookup_none h]
    exact ⟨fun _ j hj => absurd hj (by simp), fun _ => ⟨"", rfl⟩⟩
  | some v =>
    rw [readField_of_lookup h]
    constructor
    · rintro ⟨s, hs⟩ j hj
      obtain rfl := Option.some.inj hj
      cases v with
      | str t => exact ⟨t, rfl⟩
      | _ => exact absurd hs (by simp [getOr, orMalformed, Json.text?])
    · intro hall
      obtain ⟨s, rfl⟩ := hall v rfl
      exact ⟨s, rfl⟩

theorem readFormat_isOk_iff {j : Json} : (∃ f, Query.readFormat j = .ok f) ↔ NamesFormat j := by
  unfold Query.readFormat
  constructor
  · rintro ⟨f, hf⟩
    cases hj : j.caseName?.bind ResultFormat.ofName? with
    | none =>
      rw [hj] at hf
      exact absurd hf (by simp [orMalformed])
    | some g =>
      obtain ⟨s, hs, hg⟩ := Option.bind_eq_some_iff.mp hj
      obtain rfl := ResultFormat.name_of_ofName? hg
      refine ⟨g, ?_⟩
      unfold Json.caseName? at hs
      split at hs
      · exact .inl (congrArg Json.str (Option.some.inj hs))
      · exact .inr (by rw [Option.some.inj hs])
      · exact absurd hs (by simp)
  · rintro ⟨f, rfl | rfl⟩
    · exact ⟨f, by simp [Json.caseName?, orMalformed]⟩
    · exact ⟨f, by simp [Json.caseName?, orMalformed]⟩

theorem formatField_isOk_iff :
    (∃ f, getOr .table (readField ms "resultFormat" Query.readFormat) = .ok f) ↔
      ∀ j, ms.lookup "resultFormat" = some j → NamesFormat j := by
  cases h : ms.lookup "resultFormat" with
  | none =>
    rw [readField_of_lookup_none h]
    exact ⟨fun _ j hj => absurd hj (by simp), fun _ => ⟨.table, rfl⟩⟩
  | some v =>
    rw [readField_of_lookup h]
    show (∃ f, Query.readFormat v = .ok f) ↔ _
    rw [readFormat_isOk_iff]
    exact ⟨fun hv j hj => Option.some.inj hj ▸ hv, fun hall => hall v rfl⟩

end Fields

/-! ## Defaults -/

section Defaults

variable {ms fs : Members} {key : String}

/-- A field that is put in has its value, if no two fields put in have one key. -/
theorem lookup_foldl_put_of_mem {value : Json} (hnodup : (fs.map Prod.fst).Nodup)
    (hm : (key, value) ∈ fs) :
    (fs.foldl (fun acc m => put m.1 m.2 acc) ms).lookup key = some value := by
  induction fs generalizing ms with
  | nil => exact absurd hm List.not_mem_nil
  | cons f fs ih =>
    rw [List.map_cons, List.nodup_cons] at hnodup
    rw [List.foldl_cons]
    rcases List.mem_cons.mp hm with rfl | hm
    · rw [lookup_foldl_put hnodup.1, lookup_put_self]
    · exact ih hnodup.2 hm

theorem keys_defaultMembers (d : Defaults) :
    (defaultMembers d).map Prod.fst = ["database", "clusterUri", "query", "resultFormat"] := rfl

/-- A field with a default has it where it was unset, and is left alone where it was not. -/
theorem lookup_filled_of_mem {d : Defaults} {value : Json} (hm : (key, value) ∈ defaultMembers d) :
    (filled ms d).lookup key = if isUnset ms key then some value else ms.lookup key := by
  split
  · rename_i hunset
    refine lookup_foldl_put_of_mem ?_ (List.mem_filter.mpr ⟨hm, hunset⟩)
    have hkeys : ((defaultMembers d).map Prod.fst).Nodup := by
      rw [keys_defaultMembers]
      decide
    exact hkeys.sublist (List.filter_sublist.map _)
  · rename_i hset
    refine lookup_foldl_put fun hmissing => ?_
    obtain ⟨f, hf, rfl⟩ := List.mem_map.mp hmissing
    exact hset (List.mem_filter.mp hf).2

/-- A default that is as wanted makes a field as wanted that may be null. -/
theorem forall_lookup_filled {d : Defaults} {value : Json} (hm : (key, value) ∈ defaultMembers d)
    {Wanted : Json → Prop} (hvalue : Wanted value) :
    (∀ j, (filled ms d).lookup key = some j → Wanted j) ↔
      ∀ j, ms.lookup key = some j → j ≠ .null → Wanted j := by
  rw [lookup_filled_of_mem hm]
  cases h : ms.lookup key with
  | none =>
    have hunset : isUnset ms key = true := by simp [isUnset, h]
    rw [if_pos hunset]
    exact ⟨fun _ j hj => absurd hj (by simp), fun _ j hj => Option.some.inj hj ▸ hvalue⟩
  | some v =>
    -- null counts as missing
    by_cases hv : v = .null
    · have hunset : isUnset ms key = true := by simp [isUnset, h, hv]
      rw [if_pos hunset]
      exact ⟨fun _ j hj hne => absurd (Option.some.inj hj ▸ hv) hne,
        fun _ j hj => Option.some.inj hj ▸ hvalue⟩
    · have hset : isUnset ms key = false := by
        unfold isUnset
        rw [h]
        cases v with
        | null => exact absurd rfl hv
        | _ => rfl
      rw [hset, if_neg (by decide)]
      exact ⟨fun hall j hj _ => hall j hj,
        fun hall j hj => hall j hj (Option.some.inj hj ▸ hv)⟩

end Defaults

/-! ## Current members -/

section Current

variable (ms : Members) (d : Defaults)

/-- The members of a stored query in the current form. -/
def currentMembers : Members := if isOld ms d then upgradeMembers ms d else ms

theorem upgrade_obj : upgrade d (.obj ms) = .obj (currentMembers ms d) := by
  unfold upgrade currentMembers
  show (if isOld ms d = true then Json.obj (upgradeMembers ms d) else Json.obj ms) = _
  split <;> rfl

theorem isOld_currentMembers : isOld (currentMembers ms d) d = false := by
  have h := needsUpgrade_upgrade d d (.obj ms)
  rw [upgrade_obj] at h
  exact h

/-- Nothing is filled in where nothing is old. -/
theorem filled_of_not_isOld (h : isOld ms d = false) : filled ms d = ms := by
  have hempty : (missingMembers ms d).isEmpty = true := by
    unfold isOld at h
    simp only [Bool.or_eq_false_iff, Bool.not_eq_false'] at h
    exact h.1.1.1.1
  unfold filled
  rw [List.isEmpty_iff.mp hempty]
  rfl

theorem lookup_currentMembers {key : String}
    (hk : key ∉ ["pluginVersion", "querySource", "rawMode", "expression"]) :
    (currentMembers ms d).lookup key = (filled ms d).lookup key := by
  unfold currentMembers
  split
  · exact lookup_upgradeMembers ms d hk
  · rename_i h
    rw [filled_of_not_isOld ms d (Bool.eq_false_iff.mpr h)]

theorem origin_upgradeMembers_eq :
    origin? (upgradeMembers ms d) = some ((origin? ms).getD (.ofRawMode (rawModeOf ms))) := by
  have hread : ∀ fs : Members, origin? fs =
      ((fs.lookup "querySource").bind Json.text?).bind Origin.ofName? := fun _ => rfl
  rw [hread, upgradeMembers_eq, lookup_put_of_ne (by decide)]
  cases ho : origin? ms with
  | none =>
    rw [Option.isNone_none, putIf_true, lookup_put_self]
    exact Origin.ofName?_name _
  | some o =>
    rw [Option.isNone_some, putIf_false, lookup_putIf_of_ne (by decide),
      lookup_put_of_ne (by decide), lookup_filled d (by decide), ← hread]
    exact ho

/-- The origin that is stored, else the one that the mode tells. -/
theorem origin_currentMembers :
    origin? (currentMembers ms d) = some ((origin? ms).getD (.ofRawMode (rawModeOf ms))) := by
  unfold currentMembers
  split
  · exact origin_upgradeMembers_eq ms d
  · rename_i h
    cases ho : origin? ms with
    | none => exact absurd (by simp [isOld, ho]) h
    | some o => rfl

theorem lookup_of_origin {ms : Members} {o : Origin} (h : origin? ms = some o) :
    ms.lookup "querySource" = some (.str o.name) := by
  obtain ⟨s, hs, ho⟩ := Option.bind_eq_some_iff.mp h
  obtain ⟨j, hj, hjs⟩ := Option.bind_eq_some_iff.mp hs
  cases j with
  | str t =>
    obtain rfl := Option.some.inj hjs
    rw [hj, Origin.name_of_ofName? ho]
  | _ => exact absurd hjs (by simp [Json.text?])

theorem origin_of_lookup {ms : Members} {o : Origin}
    (h : ms.lookup "querySource" = some (.str o.name)) : origin? ms = some o := by
  unfold origin?
  rw [h]
  exact Origin.ofName?_name o

theorem asksRaw_eq :
    asksRaw ms = decide ((origin? ms).getD (.ofRawMode (rawModeOf ms)) = .raw) := by
  unfold asksRaw
  cases ho : origin? ms with
  | some o =>
    rw [lookup_of_origin ho]
    cases o with
    | raw => rfl
    | builder => rfl
  | none =>
    -- whatever is stored is the name of no origin, so the mode decides
    have hname : ∀ o : Origin, ms.lookup "querySource" ≠ some (.str o.name) := by
      intro o h
      rw [origin_of_lookup h] at ho
      exact absurd ho (by simp)
    have hraw : ms.lookup "querySource" ≠ some (.str "raw") := hname .raw
    have hbuilder : ms.lookup "querySource" ≠ some (.str "builder") := hname .builder
    rw [if_neg hraw, if_neg hbuilder]
    have hmode : rawModeOf ms =
        match ms.lookup "rawMode" with
        | some (.bool raw) => raw
        | _ => !hasSource (expressionOf ms) := by
      unfold rawModeOf rawMode?
      cases h : ms.lookup "rawMode" with
      | none => rfl
      | some j => cases j <;> rfl
    rw [← hmode]
    cases rawModeOf ms <;> decide

theorem rawMode_eq_some_iff {ms : Members} {raw : Bool} :
    rawMode? ms = some raw ↔ ms.lookup "rawMode" = some (.bool raw) := by
  unfold rawMode?
  cases ms.lookup "rawMode" with
  | none => simp
  | some j => cases j <;> simp [Json.bool?]

/-- The raw mode that is stored, else the one that the expression tells. -/
theorem lookup_rawMode_currentMembers :
    (currentMembers ms d).lookup "rawMode" = some (.bool (rawModeOf ms)) := by
  have hkept : ∀ raw, rawMode? ms = some raw →
      ms.lookup "rawMode" = some (.bool (rawModeOf ms)) := by
    intro raw hraw
    rw [rawModeOf, hraw]
    exact rawMode_eq_some_iff.mp hraw
  unfold currentMembers
  split
  · rw [upgradeMembers_eq, lookup_put_of_ne (by decide), lookup_putIf_of_ne (by decide)]
    cases hraw : rawMode? ms with
    | none => exact lookup_put_self ..
    | some raw =>
      rw [Option.isNone_some, putIf_false, lookup_put_of_ne (by decide),
        lookup_filled d (by decide)]
      exact hkept raw hraw
  · -- a missing mode alone asks for the upgrade, so without one the mode is stored
    rename_i hcurrent
    cases hraw : rawMode? ms with
    | none => exact absurd (by simp [isOld, hraw]) hcurrent
    | some raw => exact hkept raw hraw

theorem lookup_version_currentMembers :
    (currentMembers ms d).lookup "pluginVersion" = some (.str version) := by
  have h := isOld_currentMembers ms d
  unfold isOld at h
  simp only [Bool.or_eq_false_iff, Bool.not_eq_false'] at h
  obtain ⟨j, hj, ht⟩ := Option.bind_eq_some_iff.mp (of_decide_eq_true h.2)
  cases j with
  | str t => rw [hj, Option.some.inj ht]
  | _ => exact absurd ht (by simp [Json.text?])

end Current

/-! ## Loaded queries -/

section Loaded

variable (ms : Members) (d : Defaults)

/-- The members from which all but the draft is loaded. -/
def headMembers : Members := (currentMembers ms d).filter (·.1 ≠ "expression")

theorem lookup_headMembers {key : String} (h : key ≠ "expression") :
    (headMembers ms d).lookup key = (currentMembers ms d).lookup key :=
  lookup_filter_of_ne _ h

theorem lookup_headMembers_filled {key : String}
    (hk : key ∉ ["pluginVersion", "querySource", "rawMode", "expression"]) :
    (headMembers ms d).lookup key = (filled ms d).lookup key := by
  have hne : key ≠ "expression" := by
    rintro rfl
    exact hk (by simp)
  rw [lookup_headMembers ms d hne, lookup_currentMembers ms d hk]

/-- The mode of a loaded query is that of the members read, if they are, else the builder's. -/
theorem isRaw_load : (load d (.obj ms)).isRaw =
    match Query.ofMembers (headMembers ms d) with
    | .ok q => q.isRaw
    | .error _ => false := by
  unfold load
  dsimp only
  have hhead : ((upgrade d (.obj ms)).members?.getD []).filter (·.1 ≠ "expression") =
      headMembers ms d := by
    rw [upgrade_obj]
    rfl
  rw [hhead]
  cases Query.ofMembers (headMembers ms d) <;> rfl

theorem refId_isOk_iff : (∃ s, Query.textField (headMembers ms d) "refId" = .ok s) ↔
    ∀ j, ms.lookup "refId" = some j → IsText j := by
  rw [textField_isOk_iff, lookup_headMembers_filled ms d (by decide), lookup_filled d (by decide)]

/-- A text with a default can be read unless another value than null stands in its place. -/
theorem text_isOk_iff {key : String} (hk : key ∈ ["database", "clusterUri", "query"]) :
    (∃ s, Query.textField (headMembers ms d) key = .ok s) ↔
      ∀ j, ms.lookup key = some j → j ≠ .null → IsText j := by
  have hkeys : (∃ s, (key, Json.str s) ∈ defaultMembers d) ∧
      key ∉ ["pluginVersion", "querySource", "rawMode", "expression"] := by
    simp only [List.mem_cons, List.not_mem_nil, or_false] at hk
    rcases hk with rfl | rfl | rfl
    · exact ⟨⟨d.database, by simp [defaultMembers]⟩, by decide⟩
    · exact ⟨⟨d.clusterUri, by simp [defaultMembers]⟩, by decide⟩
    · exact ⟨⟨d.text, by simp [defaultMembers]⟩, by decide⟩
  obtain ⟨⟨s, hs⟩, hother⟩ := hkeys
  rw [textField_isOk_iff, lookup_headMembers_filled ms d hother]
  exact forall_lookup_filled hs ⟨s, rfl⟩

theorem format_isOk_iff :
    (∃ f, getOr .table (readField (headMembers ms d) "resultFormat" Query.readFormat) = .ok f) ↔
      ∀ j, ms.lookup "resultFormat" = some j → j ≠ .null → NamesFormat j := by
  have hdefault : ("resultFormat", Json.str d.format.name) ∈ defaultMembers d := by
    simp [defaultMembers]
  rw [formatField_isOk_iff, lookup_headMembers_filled ms d (by decide)]
  exact forall_lookup_filled hdefault ⟨d.format, .inl rfl⟩

theorem draft_headMembers :
    getOr {} (readField (headMembers ms d) "expression" Draft.ofJson) = .ok {} := by
  have hnone : (headMembers ms d).lookup "expression" = none := lookup_filter_self _ _
  rw [readField_of_lookup_none hnone]
  rfl

theorem rawMode_headMembers : ∃ raw,
    getOr false (readField (headMembers ms d) "rawMode" fun j => orMalformed j.bool?) =
      .ok raw := by
  have hraw := lookup_rawMode_currentMembers ms d
  refine ⟨rawModeOf ms, ?_⟩
  rw [readField_of_lookup ((lookup_headMembers ms d (by decide)).trans hraw)]
  rfl

theorem origin_headMembers :
    getOr none (readField (headMembers ms d) "querySource" (Draft.orNull Query.readOrigin)) =
      .ok (some ((origin? ms).getD (.ofRawMode (rawModeOf ms)))) := by
  refine readOrigin_of_lookup ?_
  rw [lookup_headMembers ms d (by decide)]
  exact lookup_of_origin (origin_currentMembers ms d)

theorem version_headMembers : Query.textField (headMembers ms d) "pluginVersion" = .ok version := by
  refine textField_of_lookup ?_
  rw [lookup_headMembers ms d (by decide)]
  exact lookup_version_currentMembers ms d

/-- The members are read if and only if the stored ones can be. -/
theorem reads_headMembers_iff : (∃ q, Reads (headMembers ms d) q) ↔ IsReadable ms := by
  constructor
  · rintro ⟨q, h⟩
    refine ⟨(refId_isOk_iff ms d).mp ⟨_, h.refId⟩, fun key hk => (text_isOk_iff ms d hk).mp ?_,
      (format_isOk_iff ms d).mp ⟨_, h.format⟩⟩
    simp only [List.mem_cons, List.not_mem_nil, or_false] at hk
    rcases hk with rfl | rfl | rfl
    · exact ⟨_, h.database⟩
    · exact ⟨_, h.clusterUri⟩
    · exact ⟨_, h.text⟩
  · intro h
    have htext : ∀ key ∈ ["database", "clusterUri", "query"],
        ∃ s, Query.textField (headMembers ms d) key = .ok s :=
      fun key hk => (text_isOk_iff ms d hk).mpr (h.texts key hk)
    obtain ⟨refId, hrefId⟩ := (refId_isOk_iff ms d).mpr h.refId
    obtain ⟨database, hdatabase⟩ := htext "database" (by simp)
    obtain ⟨clusterUri, hclusterUri⟩ := htext "clusterUri" (by simp)
    obtain ⟨text, htext⟩ := htext "query" (by simp)
    obtain ⟨format, hformat⟩ := (format_isOk_iff ms d).mpr h.format
    -- the other fields are written by the upgrade, or left out, and cannot be faulty
    obtain ⟨raw, hraw⟩ := rawMode_headMembers ms d
    exact ⟨⟨refId, database, clusterUri, text, {}, format, raw, _, version⟩,
      ⟨hrefId, hdatabase, hclusterUri, htext, draft_headMembers ms d, hformat, hraw,
        origin_headMembers ms d, version_headMembers ms d⟩⟩

/-- A query that is read has the mode that was asked for. -/
theorem isRaw_of_reads {q : Query} (h : Reads (headMembers ms d) q) : q.isRaw = asksRaw ms := by
  have hq : q.origin = some ((origin? ms).getD (.ofRawMode (rawModeOf ms))) :=
    Except.ok.inj (h.origin.symm.trans (origin_headMembers ms d))
  rw [asksRaw_eq]
  unfold Query.isRaw
  rw [hq]

end Loaded

/-- **A loaded query is raw exactly if the stored one asks for it and can be read.**  So where its
other fields can be read its mode is the one asked for, whatever the expression holds and whatever
the defaults; where one of them cannot, the query is of the builder. -/
theorem isRaw_load_iff (ms : Members) (d : Defaults) :
    (load d (.obj ms)).isRaw = true ↔ IsReadable ms ∧ asksRaw ms = true := by
  rw [isRaw_load, ← reads_headMembers_iff ms d]
  cases h : Query.ofMembers (headMembers ms d) with
  | error f =>
    refine ⟨fun hfalse => absurd hfalse (by simp), fun hboth => ?_⟩
    obtain ⟨q, hq⟩ := hboth.1
    rw [ofMembers_eq_ok_iff.mpr hq] at h
    exact absurd h (by simp)
  | ok q =>
    have hreads := ofMembers_eq_ok_iff.mp h
    have hmode := isRaw_of_reads ms d hreads
    constructor
    · exact fun hraw => ⟨⟨q, hreads⟩, hmode ▸ hraw⟩
    · exact fun hboth => hmode.trans hboth.2

/-- A query of the user's text whose result format is not known here. -/
def unknownFormat : Members :=
  [("refId", .str "A"), ("query", .str "Events | take 10"), ("resultFormat", .str "graph"),
    ("rawMode", .bool true), ("querySource", .str "raw")]

/-- A format that is not known turns a raw query into one of the builder. -/
theorem not_isRaw_load_unknownFormat :
    asksRaw unknownFormat = true ∧ (load {} (.obj unknownFormat)).isRaw = false := by
  decide

end Kusto.Stored
