import Kusto.Proofs.Draft.RoundTrip
import Kusto.Proofs.Outcome
import Kusto.Stored.Query

/-!
# Records of queries — read field by field

A record is read if and only if each of its fields is.
-/

open Kusto.Json (Members)

namespace Kusto.Stored

open Draft (fault? readField getOr orMalformed firstFault_of_none)

/-- Every field of the members can be read, and the query holds what was read. -/
structure Reads (ms : Members) (q : Query) : Prop where
  refId : Query.textField ms "refId" = .ok q.refId
  database : Query.textField ms "database" = .ok q.database
  clusterUri : Query.textField ms "clusterUri" = .ok q.clusterUri
  text : Query.textField ms "query" = .ok q.text
  draft : getOr {} (readField ms "expression" Draft.ofJson) = .ok q.draft
  format : getOr .table (readField ms "resultFormat" Query.readFormat) = .ok q.format
  rawMode : getOr false (readField ms "rawMode" fun j => orMalformed j.bool?) = .ok q.rawMode
  origin : getOr none (readField ms "querySource" (Draft.orNull Query.readOrigin)) = .ok q.origin
  version : Query.textField ms "pluginVersion" = .ok q.version

theorem ofMembers_eq_ok_iff {ms : Members} {q : Query} :
    Query.ofMembers ms = .ok q ↔ Reads ms q := by
  constructor
  · intro h
    unfold Query.ofMembers at h
    dsimp only at h
    obtain ⟨_, -, h⟩ := exists_of_bind_ok h
    obtain ⟨refId, h1, h⟩ := exists_of_bind_ok h
    obtain ⟨database, h2, h⟩ := exists_of_bind_ok h
    obtain ⟨clusterUri, h3, h⟩ := exists_of_bind_ok h
    obtain ⟨text, h4, h⟩ := exists_of_bind_ok h
    obtain ⟨draft, h5, h⟩ := exists_of_bind_ok h
    obtain ⟨format, h6, h⟩ := exists_of_bind_ok h
    obtain ⟨rawMode, h7, h⟩ := exists_of_bind_ok h
    obtain ⟨origin, h8, h⟩ := exists_of_bind_ok h
    obtain ⟨version, h9, h⟩ := exists_of_bind_ok h
    obtain rfl := Except.ok.inj h
    exact ⟨h1, h2, h3, h4, h5, h6, h7, h8, h9⟩
  · intro h
    unfold Query.ofMembers
    dsimp only
    rw [h.refId, h.database, h.clusterUri, h.text, h.draft, h.format, h.rawMode, h.origin,
      h.version, firstFault_of_none]
    · rfl
    · simp [fault?]

end Kusto.Stored
