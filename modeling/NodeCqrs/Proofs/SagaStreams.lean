import NodeCqrs.Proofs.SagaId
import NodeCqrs.Proofs.SqliteEventStorage
import NodeCqrs.Proofs.SqliteGuid

/-!
# The events a saga is restored from

`InMemoryEventStorage` has the origin event among them only if it carries its own id as a saga
origin, `SqliteEventStorage` always. A starter event as it is dispatched does not, so the two never
agree (`sagaStreams_differ`).
-/

namespace NodeCqrs

namespace InMemoryEventStorage

variable {I V : Type}

theorem getSagaEvents_eq {events : List (Event I V)} {sagaId sagaDescriptor originEventId : String}
    (hs : parseSagaId sagaId = .ok (sagaDescriptor, originEventId)) {beforeEvent : Event I V}
    (hid : beforeEvent.id.getD "" ≠ "")
    (horigin : beforeEvent.sagaOrigin sagaDescriptor = some originEventId) {i j : ℕ}
    (hi : events.findIdx? (·.id = some originEventId) = some i)
    (hj : events.findIdx? (·.id = some (beforeEvent.id.getD "")) = some j) :
    getSagaEvents events sagaId beforeEvent = .ok
      (((events.take j).drop i).filter (·.sagaOrigin sagaDescriptor = some originEventId)) := by
  simp [getSagaEvents, assertString, hid, hs, horigin, hi, hj, bind, Except.bind, pure,
    Except.pure]

end InMemoryEventStorage

namespace SqliteEventStorage

variable {V : Type} {s : SqliteEventStorage V} {log : List (Event String V)}

/-- An id of the log is found at one place. -/
theorem Holds.findIdx? (h : Holds s log) {i : ℕ} {e : Event String V} {id : String}
    (hi : log[i]? = some e) (hid : e.id = some id) : log.findIdx? (·.id = some id) = some i := by
  obtain ⟨hlt, rfl⟩ := List.getElem?_eq_some_iff.1 hi
  refine List.findIdx?_eq_some_iff_getElem.2 ⟨hlt, decide_eq_true hid, fun k hk hkid => ?_⟩
  have hkid' : log[k].id = some id := of_decide_eq_true hkid
  have := h.position_unique (List.getElem?_eq_getElem (by omega)) hi
    (by simp [idOf, hid, hkid'] : idOf log[k] = idOf log[i])
  omega

/-- The in-memory storage yields the events between that carry the origin, and the other one the
origin event before them: not even the ids agree. -/
theorem sagaStreams_differ (h : Stored s log)
    (hids : ∀ e ∈ log, ∃ id, e.id = some id ∧ IsGuid id)
    {sagaDescriptor originEventId sagaId : String}
    (hs : makeSagaId sagaDescriptor originEventId = .ok sagaId) {i j : ℕ}
    {starter e : Event String V} (hi : log[i]? = some starter)
    (hsid : starter.id = some originEventId)
    (hown : starter.sagaOrigin sagaDescriptor ≠ some originEventId) (hj : log[j]? = some e)
    (hij : i < j) (he : e.sagaOrigin sagaDescriptor = some originEventId) :
    InMemoryEventStorage.getSagaEvents log sagaId e = .ok
      (((log.take j).drop (i + 1)).filter (·.sagaOrigin sagaDescriptor = some originEventId))
    ∧ s.getSagaEvents sagaId e = .ok (stored starter ::
      (((log.take j).drop (i + 1)).filter (inSaga sagaDescriptor (guid originEventId))).map stored)
    ∧ (InMemoryEventStorage.getSagaEvents log sagaId e).map (·.map Event.id)
      ≠ (s.getSagaEvents sagaId e).map (·.map Event.id) := by
  have hguid : IsGuid originEventId := by
    obtain ⟨id, hid, hguid⟩ := hids starter (List.mem_of_getElem? hi)
    rw [hsid] at hid
    exact Option.some.inj hid ▸ hguid
  obtain ⟨eid, heid, heguid⟩ := hids e (List.mem_of_getElem? hj)
  have hparse := parseSagaId_makeSagaId hs fun hc => (separator_of_mem _ (hguid.2 _ hc)).2 rfl
  have hne : e.id.getD "" ≠ "" := by simpa [heid] using heguid.ne_empty
  have hdrop : (log.take j).drop i = starter :: (log.take j).drop (i + 1) := by
    obtain ⟨hlt, rfl⟩ := List.getElem?_eq_some_iff.1 hi
    rw [List.drop_eq_getElem_cons (by simp; omega), List.getElem_take]
  have hmem := InMemoryEventStorage.getSagaEvents_eq hparse hne he (h.holds.findIdx? hi hsid)
    (h.holds.findIdx? hj (by simp [heid]))
  have hsql := getSagaEvents_eq h hparse hne he hi (by simp [idOf, hsid]) hj rfl
  rw [hdrop, List.filter_cons_of_neg (by simpa using hown)] at hmem
  rw [hdrop, List.filter_cons_of_pos (by simp [inSaga, idOf, hsid]), List.map_cons] at hsql
  refine ⟨hmem, hsql, ?_⟩
  rw [hmem, hsql]
  intro heq
  simp only [Except.map, Except.ok.injEq, List.map_cons] at heq
  -- the first of the ids is that of an event past the starter
  obtain ⟨x, hx, hxid⟩ : ∃ x ∈ (log.take j).drop (i + 1), x.id = some originEventId := by
    have hfirst : (stored starter).id ∈ (((log.take j).drop (i + 1)).filter
        (·.sagaOrigin sagaDescriptor = some originEventId)).map Event.id := by
      rw [heq]
      exact List.mem_cons_self
    obtain ⟨x, hx, hxid⟩ := List.mem_map.1 hfirst
    refine ⟨x, (List.mem_filter.1 hx).1, hxid.trans ?_⟩
    simp [stored, idOf, hsid, hguid.bufferToGuid_guid]
  obtain ⟨k, hk⟩ := List.getElem?_of_mem hx
  rw [List.getElem?_drop, List.getElem?_take] at hk
  split_ifs at hk
  have := h.holds.position_unique hi hk (by simp [idOf, hsid, hxid])
  omega

/-- A saga is started and goes on twice; an event between is not its own. -/
def progressed : List (Event String ℕ) := [
  { id := some "a0000000000000000000000000000001", type := "SagaStarted", payload := 1 },
  { id := some "a0000000000000000000000000000002", type := "SagaProgressed", payload := 2
    sagaOrigins := some [("SagaA", "a0000000000000000000000000000001")] },
  { id := some "a0000000000000000000000000000003", type := "Unrelated", payload := 3 },
  { id := some "a0000000000000000000000000000004", type := "SagaProgressed", payload := 4
    sagaOrigins := some [("SagaA", "a0000000000000000000000000000001")] }]

theorem progressed_ids : ∀ e ∈ progressed, ∃ id, e.id = some id ∧ IsGuid id := by
  simp only [progressed, List.forall_mem_cons]
  exact ⟨⟨_, rfl, isGuid_of_all (by decide)⟩, ⟨_, rfl, isGuid_of_all (by decide)⟩,
    ⟨_, rfl, isGuid_of_all (by decide)⟩, ⟨_, rfl, isGuid_of_all (by decide)⟩, by simp⟩

/-- The database gives the event that has started the saga and the one it went on with. -/
theorem progressed_stored : ∃ s, Stored s progressed
    ∧ (s.getSagaEvents "SagaA:a0000000000000000000000000000001" progressed[3]).map (·.map Event.id)
      = .ok [some "a0000000000000000000000000000001", some "a0000000000000000000000000000002"] := by
  obtain ⟨s, hs, hids⟩ : ∃ s, commitEvents {} progressed false = .ok s
      ∧ (s.getSagaEvents "SagaA:a0000000000000000000000000000001" progressed[3]).map
        (·.map Event.id) = .ok [some "a0000000000000000000000000000001",
          some "a0000000000000000000000000000002"] := ⟨_, rfl, rfl⟩
  exact ⟨s, Stored.commitEvents .empty hs, hids⟩

theorem sagaStreams_differ_progressed : ∃ s, Stored s progressed
    ∧ (InMemoryEventStorage.getSagaEvents progressed "SagaA:a0000000000000000000000000000001"
        progressed[3]).map (·.map Event.id)
      ≠ (s.getSagaEvents "SagaA:a0000000000000000000000000000001" progressed[3]).map
        (·.map Event.id) := by
  obtain ⟨s, h, -⟩ := progressed_stored
  have hid : makeSagaId "SagaA" "a0000000000000000000000000000001"
    = .ok "SagaA:a0000000000000000000000000000001" := rfl
  exact ⟨s, h, (sagaStreams_differ h progressed_ids hid (i := 0) (j := 3) rfl rfl (by decide) rfl
    (by decide) (by decide)).2.2⟩

theorem sagaStreams_differ_fails : ¬ ∀ (s : SqliteEventStorage ℕ) (log : List (Event String ℕ)),
    Stored s log → (∀ e ∈ log, ∃ id, e.id = some id ∧ IsGuid id) →
    ∀ (sagaDescriptor originEventId sagaId : String),
      makeSagaId sagaDescriptor originEventId = .ok sagaId →
    ∀ (i j : ℕ) (starter e : Event String ℕ), log[i]? = some starter →
      starter.id = some originEventId → starter.sagaOrigin sagaDescriptor ≠ some originEventId →
      log[j]? = some e → i < j → e.sagaOrigin sagaDescriptor = some originEventId →
      (InMemoryEventStorage.getSagaEvents log sagaId e).map (·.map Event.id)
        = (s.getSagaEvents sagaId e).map (·.map Event.id) := by
  intro hall
  obtain ⟨s, h, hids⟩ := progressed_stored
  have heq := hall s progressed h progressed_ids "SagaA"
    "a0000000000000000000000000000001" "SagaA:a0000000000000000000000000000001" rfl 0 3
    progressed[0] progressed[3] rfl rfl (by decide) rfl (by decide) (by decide)
  rw [hids] at heq
  exact absurd heq (by decide)

end SqliteEventStorage

end NodeCqrs
