import NodeCqrs.EventStorages
import NodeCqrs.Proofs.ObjectId
import NodeCqrs.Proofs.SqliteEventStorage

/-!
# What the event storages accept

Both storages are ledgers of the events committed. That of SQLite refuses an id or a version of an
aggregate that is there already, and the unique index of MongoDB also the lone fields.
-/

namespace NodeCqrs

variable {V : Type}

namespace HexEvent

variable (e e' : HexEvent V)

theorem id_eq : ∃ id, e.val.id = some id ∧ IsHexId id := e.property.id

theorem truthy_aggregateId :
    e.val.aggregateId.filter (truthy ·) = e.val.aggregateId := by
  rcases ha : e.val.aggregateId with _ | a
  · rfl
  · have hne := (e.property.aggregateId a ha).ne_empty
    simp [Option.filter, truthy, hne]

theorem document_id_eq_iff : (document e)._id = (document e')._id ↔ e.val.id = e'.val.id := by
  obtain ⟨id, hid, hhex⟩ := e.id_eq
  obtain ⟨id', hid', hhex'⟩ := e'.id_eq
  simp only [document, MongoEventStorage.documentOf, hid, hid', Option.getD_some,
    Option.some.injEq]
  exact ⟨hhex.hexObjectId_inj hhex', congrArg _⟩

theorem document_aggregateId_eq_iff :
    (document e).aggregateId = (document e').aggregateId ↔
      e.val.aggregateId = e'.val.aggregateId := by
  simp only [document, MongoEventStorage.documentOf, truthy_aggregateId]
  rcases ha : e.val.aggregateId with _ | a <;> rcases ha' : e'.val.aggregateId with _ | a' <;>
    simp only [Option.map_none, Option.map_some, reduceCtorEq, Option.some.injEq]
  exact (e.property.aggregateId a ha).toObjectIdOrString_inj (e'.property.aggregateId a' ha')

theorem toEventDocument (newObjectId : ObjectId) :
    MongoEventStorage.toEventDocument newObjectId e.val = some (document e) := by
  obtain ⟨id, hid, hhex⟩ := e.id_eq
  simp [MongoEventStorage.toEventDocument, document, hid, hhex.toObjectId]

/-- The keys of two documents agree where the events are one version or have one lone field. -/
theorem sameKey_document :
    MongoEventStorage.sameKey (document e) (document e')
      = (sameVersion e e' || sameLoneField e e') := by
  have hid : decide ((document e)._id = (document e')._id) = decide (e.val.id = e'.val.id) :=
    decide_eq_decide.2 (document_id_eq_iff e e')
  have ha : decide ((document e).aggregateId = (document e').aggregateId)
      = decide (e.val.aggregateId = e'.val.aggregateId) :=
    decide_eq_decide.2 (document_aggregateId_eq_iff e e')
  have hsome : (document e).aggregateId.isSome = e.val.aggregateId.isSome := by
    simp [document, MongoEventStorage.documentOf, truthy_aggregateId]
  have hv : (document e).aggregateVersion = e.val.aggregateVersion
      ∧ (document e').aggregateVersion = e'.val.aggregateVersion := ⟨rfl, rfl⟩
  simp only [MongoEventStorage.sameKey, sameVersion, sameLoneField, hid, ha, hsome, hv.1, hv.2]
  cases e.val.aggregateId.isSome <;> cases e.val.aggregateVersion.isSome <;> simp

end HexEvent

namespace SqliteEventStorage

open HexEvent Ledger

variable {s : SqliteEventStorage V} {log : List (HexEvent V)}

theorem Holds.conflict_isNone (h : Holds s (log.map (·.val))) (e : HexEvent V) :
    (s.conflict e.val).isNone = log.all fun e' =>
      !(e.val.aggregateId.isSome && e.val.aggregateVersion.isSome
        && e.val.aggregateId = e'.val.aggregateId
        && e.val.aggregateVersion = e'.val.aggregateVersion) := by
  unfold conflict
  rw [truthy_aggregateId]
  rcases ha : e.val.aggregateId with _ | a <;> rcases hv : e.val.aggregateVersion with _ | v
  · simp
  · simp
  · simp
  · have hhex := (e.property.aggregateId a ha).canonicalId
    have hany : s.checkConcurrency (guid a) v
        = log.any fun e' => some a = e'.val.aggregateId && some v = e'.val.aggregateVersion := by
      refine h.any_map fun n e' _ => ?_
      have he : decide (e'.val.aggregateId.map guid = some (guid a))
          = decide (some a = e'.val.aggregateId) := by
        refine decide_eq_decide.2 ⟨fun hg => ?_, fun hg => by rw [← hg]; rfl⟩
        obtain ⟨a', ha', hga⟩ := Option.map_eq_some_iff.1 hg
        rw [ha', (e'.property.aggregateId a' ha').canonicalId.guid_inj hhex hga]
      have hver : decide (e'.val.aggregateVersion = some v)
          = decide (some v = e'.val.aggregateVersion) := decide_eq_decide.2 eq_comm
      exact congrArg₂ (· && ·) he hver
    simp only [hany, Option.isSome_some, Bool.true_and]
    rw [← List.not_any_eq_all_not]
    cases log.any _ <;> rfl

/-- An event is inserted unless its id or its version is there. -/
theorem Holds.commitEvent_isOk (h : Holds s (log.map (·.val))) (e : HexEvent V) :
    (SqliteEventStorage.commitEvent false s e.val).isOk = log.all (!sameVersion e ·) := by
  obtain ⟨id, hid, hhex⟩ := e.id_eq
  have hnodup : ((e.val.sagaOrigins.getD []).map Prod.fst).Nodup := by
    rcases ho : e.val.sagaOrigins with _ | origins
    · exact List.nodup_nil
    · exact e.property.sagaOrigins origins ho
  have hne : e.val.id.getD "" ≠ "" := by simpa [hid] using hhex.ne_empty
  have hids : ((log.map (·.val)).all fun e' => idOf e' ≠ idOf e.val)
      = log.all fun e' => !decide (e.val.id = e'.val.id) := by
    rw [List.all_map]
    refine congrArg log.all (funext fun e' => ?_)
    obtain ⟨id', hid', hhex'⟩ := e'.id_eq
    have hiff : idOf e'.val = idOf e.val ↔ e.val.id = e'.val.id := by
      simp only [idOf, hid, hid', Option.getD_some, Option.some.injEq]
      exact ⟨fun hg => (hhex'.canonicalId.guid_inj hhex.canonicalId hg).symm, fun hg => by rw [hg]⟩
    simp [hiff]
  rw [h.commitEvent_isOk_eq false hne hnodup, hids, h.conflict_isNone, Bool.eq_iff_iff]
  simp only [Bool.false_or, Bool.and_eq_true, List.all_eq_true, ← forall₂_and, sameVersion,
    Bool.not_or]
  exact forall₂_congr fun _ _ => and_comm

theorem Holds.commitEvents_isOk : ∀ {log : List (HexEvent V)} {s : SqliteEventStorage V},
    Holds s (log.map (·.val)) → ∀ batch : List (HexEvent V),
    (s.commitEvents (batch.map (·.val)) false).isOk = accepts sameVersion log batch
  | _, _, _, [] => rfl
  | log, s, h, e :: batch => by
    have he := h.commitEvent_isOk e
    simp only [SqliteEventStorage.commitEvents, List.map_cons, List.foldlM_cons, accepts, ← he]
    rcases hs : SqliteEventStorage.commitEvent false s e.val with error | s'
    · rfl
    · have h' : Holds s' ((log ++ [e]).map (·.val)) := by
        simpa using h.commitEvent hs
      exact h'.commitEvents_isOk batch

/-- SQLite is the ledger of ids and versions. -/
theorem Holds.perform (h : Holds s (log.map (·.val))) (batch : List (HexEvent V)) :
    (s.perform batch).1.isOk = (commit sameVersion log batch).1 ∧
      Holds (s.perform batch).2 ((commit sameVersion log batch).2.map (·.val)) := by
  have hok := h.commitEvents_isOk batch
  unfold SqliteEventStorage.perform commit
  rw [← hok]
  rcases hs : s.commitEvents (batch.map (·.val)) false with error | s'
  · rw [hs]
    exact ⟨rfl, h⟩
  · rw [hs]
    refine ⟨rfl, ?_⟩
    simpa [Except.isOk, Except.toBool] using h.commitEvents hs

end SqliteEventStorage

namespace MongoEventStorage

open HexEvent Ledger

/-- What the unique index refuses. -/
abbrev sameEntry : HexEvent V → HexEvent V → Bool := fun e e' =>
  sameVersion e e' || sameLoneField e e'

theorem insertOne_document (log : List (HexEvent V)) (e : HexEvent V) :
    insertOne (log.map document) (document e)
      = if log.all (!sameEntry e ·) then some ((log ++ [e]).map document) else none := by
  have hany : (log.map document).any (sameKey (document e)) = log.any (sameEntry e) := by
    rw [List.any_map]
    exact congrArg log.any (funext (sameKey_document e))
  unfold insertOne
  rw [hany, ← List.not_any_eq_all_not]
  cases log.any (sameEntry e)
  · simp
  · simp

theorem deleteMany_inserted {log inserted : List (HexEvent V)}
    (hids : ∀ e ∈ inserted, ∀ e' ∈ log, e.val.id ≠ e'.val.id) :
    deleteMany ((log ++ inserted).map document) (inserted.map fun e => (document e)._id)
      = log.map document := by
  have hkept : ∀ d ∈ log.map document, d._id ∉ inserted.map fun e => (document e)._id := by
    intro d hd hmem
    obtain ⟨e', he', rfl⟩ := List.mem_map.1 hd
    obtain ⟨e, he, hid⟩ := List.mem_map.1 hmem
    exact hids e he e' he' ((document_id_eq_iff e e').1 hid)
  have hgone : ∀ d ∈ inserted.map document, d._id ∈ inserted.map fun e => (document e)._id := by
    intro d hd
    obtain ⟨e, he, rfl⟩ := List.mem_map.1 hd
    exact List.mem_map_of_mem he
  unfold deleteMany
  rw [List.map_append, List.filter_append,
    List.filter_eq_self.2 fun d hd => decide_eq_true (hkept d hd),
    List.filter_eq_nil_iff.2 fun d hd => by simpa using hgone d hd, List.append_nil]

/-- The documents inserted are deleted if one conflicts. -/
theorem insertEach_document {log : List (HexEvent V)} : ∀ {inserted : List (HexEvent V)},
    (∀ e ∈ inserted, ∀ e' ∈ log, e.val.id ≠ e'.val.id) → ∀ batch : List (HexEvent V),
    insertEach ((log ++ inserted).map document) (inserted.map fun e => (document e)._id)
        (batch.map document)
      = if accepts sameEntry (log ++ inserted) batch
          then (true, (log ++ inserted ++ batch).map document) else (false, log.map document)
  | inserted, _, [] => by simp [insertEach, accepts]
  | inserted, hids, e :: batch => by
    simp only [List.map_cons, insertEach, insertOne_document, accepts]
    by_cases hall : (log ++ inserted).all (!sameEntry e ·) = true
    · have hids' : ∀ e₁ ∈ inserted ++ [e], ∀ e₂ ∈ log, e₁.val.id ≠ e₂.val.id := by
        intro e₁ he₁ e₂ he₂
        rcases List.mem_append.1 he₁ with he₁ | he₁
        · exact hids e₁ he₁ e₂ he₂
        · obtain rfl := List.mem_singleton.1 he₁
          intro hid
          have hne := List.all_eq_true.1 hall e₂ (List.mem_append_left _ he₂)
          simp [sameEntry, sameVersion, hid] at hne
      have ih := insertEach_document hids' batch
      simp only [List.append_assoc] at ih hall ⊢
      simp only [hall, if_true, Bool.true_and]
      simpa using ih
    · have hdelete := deleteMany_inserted hids
      simp only [hall, Bool.false_and, Bool.false_eq_true, if_false]
      rcases inserted with _ | ⟨e₁, inserted⟩
      · simp
      · rw [if_neg (by simp), hdelete]

theorem mapM_toEventDocument (newObjectIds : ℕ → ObjectId) : ∀ (batch : List (HexEvent V)) (n : ℕ),
    ((batch.map (·.val)).zipIdx n).mapM
      (fun (event, i) => toEventDocument (newObjectIds i) event) = some (batch.map document)
  | [], _ => rfl
  | e :: batch, n => by
    rw [List.map_cons, List.zipIdx_cons, List.mapM_cons, mapM_toEventDocument]
    simp [HexEvent.toEventDocument]

/-- MongoDB is the ledger of ids, versions and lone fields. -/
theorem perform_document (newObjectIds : ℕ → ObjectId) (log batch : List (HexEvent V)) :
    (perform newObjectIds (log.map document) batch).1.isOk = (commit sameEntry log batch).1 ∧
      (perform newObjectIds (log.map document) batch).2
        = (commit sameEntry log batch).2.map document := by
  have hdocs := mapM_toEventDocument newObjectIds batch 0
  have hnone : ∀ e ∈ ([] : List (HexEvent V)), ∀ e' ∈ log, e.val.id ≠ e'.val.id := by simp
  have heach := insertEach_document hnone batch
  simp only [List.append_nil, List.map_nil] at heach
  unfold perform commitEvents commit
  simp only [hdocs, heach, Bool.false_eq_true, if_false]
  by_cases ha : accepts sameEntry log batch = true
  · rw [if_pos ha, if_pos ha]
    exact ⟨rfl, rfl⟩
  · rw [if_neg ha, if_neg ha]
    exact ⟨rfl, rfl⟩

end MongoEventStorage

namespace EventStorages

open HexEvent Ledger
open Replies (after replies Along)
open MongoEventStorage (sameEntry)
open SqliteEventStorage (Holds)

/-- The same calls are accepted, and after any number of them both storages hold the events of one
log, each in its rows or documents. -/
structure Agree (newObjectIds : ℕ → ObjectId) (calls : List (List (HexEvent V))) : Prop where
  accepted : (replies SqliteEventStorage.perform {} calls).map Except.isOk
    = (replies (MongoEventStorage.perform newObjectIds) [] calls).map Except.isOk
  events : ∀ n, ∃ log : List (HexEvent V),
    Holds (after SqliteEventStorage.perform {} (calls.take n)) (log.map (·.val)) ∧
      after (MongoEventStorage.perform newObjectIds) [] (calls.take n) = log.map document

/-- A batch with no other conflict has no two events with one lone field. -/
def LoneFieldsDiffer (log batch : List (HexEvent V)) : Prop :=
  accepts sameVersion log batch = true → accepts sameLoneField log batch = true

variable {newObjectIds : ℕ → ObjectId}

theorem along_of_accepted : ∀ {calls : List (List (HexEvent V))} {log : List (HexEvent V)}
    {s : SqliteEventStorage V}, Holds s (log.map (·.val)) →
    (replies SqliteEventStorage.perform s calls).map Except.isOk
      = (replies (MongoEventStorage.perform newObjectIds) (log.map document) calls).map
          Except.isOk →
    Along (commit sameVersion) LoneFieldsDiffer log calls
  | [], _, _, _, _ => trivial
  | batch :: calls, log, s, h, ha => by
    obtain ⟨hhead, htail⟩ := List.cons.inj ha
    have hs := h.perform batch
    have hm := MongoEventStorage.perform_document newObjectIds log batch
    rw [hs.1, hm.1] at hhead
    have hdiffer : LoneFieldsDiffer log batch := of_commit_or hhead.symm
    refine ⟨hdiffer, along_of_accepted hs.2 ?_⟩
    rw [← commit_or hdiffer, ← hm.2]
    exact htail

theorem accepted_of_along : ∀ {calls : List (List (HexEvent V))} {log : List (HexEvent V)}
    {s : SqliteEventStorage V}, Holds s (log.map (·.val)) →
    Along (commit sameVersion) LoneFieldsDiffer log calls →
    (replies SqliteEventStorage.perform s calls).map Except.isOk
      = (replies (MongoEventStorage.perform newObjectIds) (log.map document) calls).map
          Except.isOk
  | [], _, _, _, _ => rfl
  | batch :: calls, log, s, h, ha => by
    have hs := h.perform batch
    have hm := MongoEventStorage.perform_document newObjectIds log batch
    rw [commit_or ha.1] at hm
    have ih := accepted_of_along hs.2 ha.2
    rw [← hm.2] at ih
    exact congrArg₂ List.cons (hs.1.trans hm.1.symm) ih

theorem events_of_along : ∀ {calls : List (List (HexEvent V))} {log : List (HexEvent V)}
    {s : SqliteEventStorage V}, Holds s (log.map (·.val)) →
    Along (commit sameVersion) LoneFieldsDiffer log calls →
    ∀ n, ∃ log' : List (HexEvent V),
      Holds (after SqliteEventStorage.perform s (calls.take n)) (log'.map (·.val)) ∧
        after (MongoEventStorage.perform newObjectIds) (log.map document) (calls.take n)
          = log'.map document
  | [], log, _, h, _, _ => ⟨log, by simpa [after] using h, by simp [after]⟩
  | _ :: _, log, _, h, _, 0 => ⟨log, h, rfl⟩
  | batch :: calls, log, s, h, ha, n + 1 => by
    have hs := h.perform batch
    have hm := MongoEventStorage.perform_document newObjectIds log batch
    rw [commit_or ha.1] at hm
    obtain ⟨log', hl, hd⟩ := events_of_along hs.2 ha.2 n
    rw [← hm.2] at hd
    exact ⟨log', hl, hd⟩

/-- The storages agree on calls if and only if each batch that has no two events of one id or of
one version, with those before it, has no two with one lone field either. -/
theorem commits_agree_iff (newObjectIds : ℕ → ObjectId) (calls : List (List (HexEvent V))) :
    Agree newObjectIds calls ↔ Along (commit sameVersion) LoneFieldsDiffer [] calls := by
  have hempty : Holds ({} : SqliteEventStorage V) (([] : List (HexEvent V)).map (·.val)) :=
    ⟨rfl, rfl, List.nodup_nil⟩
  refine ⟨fun h => along_of_accepted hempty h.accepted, fun h => ⟨?_, ?_⟩⟩
  · exact accepted_of_along hempty h
  · exact events_of_along hempty h

theorem isHexId_of_all {str : String} (h : (decide (str.length = 24)
    && str.toList.all fun c => "0123456789abcdef".toList.contains c) = true) : IsHexId str := by
  simpa [IsHexId] using h

/-- Two events of one aggregate without a version. -/
theorem commits_agree_fails :
    ¬ ∀ calls : List (List (HexEvent Unit)), Agree (fun _ => 0) calls := by
  intro h
  have ha : IsHexId "00000000000000000000000a" := isHexId_of_all (by decide)
  have hb : IsHexId "00000000000000000000000b" := isHexId_of_all (by decide)
  let event (id : String) (hid : IsHexId id) : HexEvent Unit :=
    ⟨{ id := some id, type := "created", aggregateId := some "00000000000000000000000a",
       payload := () }, ⟨id, rfl, hid⟩, fun _ hi => Option.some.inj hi ▸ ha,
       fun _ ho => by cases ho⟩
  have hempty : Holds ({} : SqliteEventStorage Unit) (([] : List (HexEvent Unit)).map (·.val)) :=
    ⟨rfl, rfl, List.nodup_nil⟩
  have halong := along_of_accepted hempty (h [[event _ ha, event _ hb]]).accepted
  have hlone := halong.1 (by simp [accepts, sameVersion, event])
  simp [accepts, sameLoneField, event] at hlone

end EventStorages

end NodeCqrs
