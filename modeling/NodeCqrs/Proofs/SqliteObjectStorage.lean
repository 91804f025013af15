import Mathlib.Data.Set.Function
import NodeCqrs.Sqlite.ObjectStorage

/-!
# `SqliteObjectStorage` as a map

The storage answers as a map from the identifiers to their records does, for identifiers of which no
two have the same bytes (`simulates`). With two that have, one reads the record of the other.
-/

namespace NodeCqrs

open Replies (replies Simulates along_of_forall)

namespace SqliteObjectStorage

variable {D : Type} {tableName : String} {I : Set Identifier}

/-- The row of each of the identifiers has its record. -/
def Represents (I : Set Identifier) (s : SqliteObjectStorage D) (m : Identifier → Option D) :
    Prop :=
  ∀ id ∈ I, s.get id = m id

theorem Represents.update {s : SqliteObjectStorage D} {m : Identifier → Option D}
    (h : Represents I s m) (hinj : Set.InjOn (fun id : Identifier => guid id) I) {id : Identifier}
    (hid : id ∈ I) (r : Option (Versioned D)) :
    Represents I (Function.update s (guid id) r) (Function.update m id (r.map (·.data))) := by
  intro id' hid'
  by_cases he : id' = id
  · subst he
    simp [get]
  · have hne : guid id' ≠ guid id := fun hg => he (hinj hid' hid hg)
    simp only [get, Function.update_of_ne hne, Function.update_of_ne he]
    exact h id' hid'

theorem Represents.none {s : SqliteObjectStorage D} {m : Identifier → Option D}
    (h : Represents I s m) {id : Identifier} (hid : id ∈ I) (hs : s (guid id) = none) :
    m id = none := by
  rw [← h id hid, get, hs]
  rfl

theorem Represents.some {s : SqliteObjectStorage D} {m : Identifier → Option D}
    (h : Represents I s m) {id : Identifier} (hid : id ∈ I) {r : Versioned D}
    (hs : s (guid id) = some r) : m id = some r.data := by
  rw [← h id hid, get, hs]
  rfl

theorem createSync_of_none {s : SqliteObjectStorage D} {id : Identifier} (h : s (guid id) = none)
    (data : D) : createSync tableName s id data
      = .ok (Function.update s (guid id) (some { data, version := 1 })) := by
  unfold createSync insertQuery
  rw [h]
  rfl

theorem createSync_of_some {s : SqliteObjectStorage D} {id : Identifier} {r : Versioned D}
    (h : s (guid id) = some r) (data : D) : createSync tableName s id data
      = .error s!"UNIQUE constraint failed: {tableName}.id" := by
  unfold createSync insertQuery
  rw [h]
  rfl

/-- One at a time, an update finds the version it read. -/
theorem updateExistingSync_eq {s : SqliteObjectStorage D} {id : Identifier} {r : Versioned D}
    (h : s (guid id) = some r) (f : D → Except String D) : s.updateExistingSync id r f
      = (f r.data).map fun data =>
          Function.update s (guid id) (some { data, version := r.version + 1 }) := by
  unfold updateExistingSync updateByIdAndVersionQuery
  rcases f r.data with message | data
  · rfl
  · simp only [h, if_true]
    rfl

theorem settle_map_represents {s : SqliteObjectStorage D} {m : Identifier → Option D}
    (h : Represents I s m) {x : Except String D} {g : D → SqliteObjectStorage D}
    {g' : D → Identifier → Option D} (hg : ∀ data, Represents I (g data) (g' data)) :
    (settle (D := D) s (x.map g)).1 = (settle (D := D) m (x.map g')).1 ∧
      Represents I (settle (D := D) s (x.map g)).2 (settle (D := D) m (x.map g')).2 := by
  rcases x with message | data
  · exact ⟨rfl, h⟩
  · exact ⟨rfl, hg data⟩

theorem simulates (hinj : Set.InjOn (fun id : Identifier => guid id) I) :
    Simulates (perform (D := D) tableName) (performMap tableName) (fun _ c => c.id ∈ I) Eq
      (Represents I) := by
  intro s m c hr hid
  cases c with
  | get id => exact ⟨congrArg StorageReply.record (hr id hid), hr⟩
  | create id data =>
    change id ∈ I at hid
    simp only [perform, performMap]
    rcases hs : s (guid id) with _ | r
    · have hm := hr.none hid hs
      rw [createSync_of_none hs, hm]
      exact ⟨rfl, hr.update hinj hid _⟩
    · have hm := hr.some hid hs
      rw [createSync_of_some hs, hm]
      exact ⟨rfl, hr⟩
  | update id f =>
    change id ∈ I at hid
    simp only [perform, performMap, updateSync]
    rcases hs : s (guid id) with _ | r
    · have hm := hr.none hid hs
      rw [hm]
      exact ⟨rfl, hr⟩
    · have hm := hr.some hid hs
      rw [hm]
      dsimp only
      rw [updateExistingSync_eq hs]
      exact settle_map_represents hr fun data => hr.update hinj hid _
  | updateEnforcingNew id f =>
    change id ∈ I at hid
    simp only [perform, performMap, updateEnforcingNew]
    rcases hs : s (guid id) with _ | r
    · have hm := hr.none hid hs
      rw [hm]
      have hcreate : ((do createSync tableName s id (← f none)) : Except String _)
          = (f none).map fun data =>
              Function.update s (guid id) (some { data, version := 1 }) := by
        rcases f none with message | data
        · rfl
        · exact createSync_of_none hs data
      dsimp only
      rw [hcreate]
      exact settle_map_represents hr fun data => hr.update hinj hid _
    · have hm := hr.some hid hs
      rw [hm]
      dsimp only
      rw [updateExistingSync_eq hs]
      exact settle_map_represents hr fun data => hr.update hinj hid _
  | delete id =>
    change id ∈ I at hid
    rcases hs : s (guid id) with _ | r
    · have hm := hr.none hid hs
      have hdelete : s.delete id = (false, s) := by simp [delete, deleteQuery, hs]
      have he : Function.update m id none = m := by rw [← hm, Function.update_eq_self]
      simp only [perform, performMap, hdelete, hm, he]
      exact ⟨rfl, hr⟩
    · have hm := hr.some hid hs
      have hdelete : s.delete id = (true, Function.update s (guid id) none) := by
        simp [delete, deleteQuery, hs]
      simp only [perform, performMap, hdelete, hm]
      exact ⟨rfl, hr.update hinj hid none⟩

/-- For the identifiers of a set, the storage answers all calls as the map does if and only if no
two of them have the same bytes. -/
theorem refines_map_iff [Inhabited D] (tableName : String) (I : Set Identifier) :
    (∀ calls : List (StorageCall D), (∀ c ∈ calls, c.id ∈ I) →
      replies (perform tableName) (fun _ => none) calls
        = replies (performMap tableName) (fun _ => none) calls) ↔
      Set.InjOn (fun id : Identifier => guid id) I := by
  constructor
  · intro h id hid id' hid' hg
    by_contra hne
    have hreplies := h [.create id default, .get id'] (by simp [StorageCall.id, hid, hid'])
    have hs : createSync tableName (fun _ => none) id (default : D)
        = .ok (Function.update (fun _ => none) (guid id) (some ⟨default, 1⟩)) :=
      createSync_of_none rfl default
    have hg' : guid id' = guid id := hg.symm
    simp [replies, perform, performMap, hs, settle, get, hg', Function.update_of_ne (Ne.symm hne)]
      at hreplies
  · intro hinj calls hcalls
    have hr : Represents I (fun _ => none : SqliteObjectStorage D) fun _ => none :=
      fun _ _ => rfl
    exact List.forall₂_eq_eq_eq ▸ (simulates hinj).replies hr (along_of_forall _ hcalls)

/-- The hex digits of two identifiers that differ in their case only. -/
theorem refines_map_fails :
    ¬ ∀ calls : List (StorageCall ℕ),
      replies (perform "tbl") (fun _ => none) calls
        = replies (performMap "tbl") (fun _ => none) calls := by
  intro h
  exact absurd (h [.create ⟨"ab", by decide⟩ 1, .get ⟨"AB", by decide⟩]) (by decide)

end SqliteObjectStorage

end NodeCqrs
