import Mathlib.Data.List.TakeWhile
import NodeCqrs.EventStore
import NodeCqrs.Proofs.SagaEventHandler
import NodeCqrs.Proofs.SagaId

/-!
# Saga ids that can be read back

The event id of a saga id is what stands behind its last colon, so an id with a colon in it is not
read back, and the events of the saga it has started are refused (`saga_continues_iff`).
-/

namespace NodeCqrs

/-- The event id has no colon. -/
theorem parseSagaId_colon {sagaId sagaDescriptor originEventId : String}
    (h : parseSagaId sagaId = .ok (sagaDescriptor, originEventId)) :
    ':' ∉ originEventId.toList := by
  by_cases hs : sagaId = ""
  · simp [parseSagaId, assertString, hs, bind, Except.bind] at h
  simp only [parseSagaId, assertString, hs, if_false, bind, Except.bind] at h
  split_ifs at h
  obtain ⟨-, rfl⟩ := Prod.mk.inj (Except.ok.inj h)
  intro hc
  rw [String.toList_ofList, List.mem_reverse] at hc
  simpa using List.mem_takeWhile_imp hc

/-- What `makeSagaId` puts together is read back if and only if the event id has no colon. -/
theorem parseSagaId_iff {sagaDescriptor originEventId sagaId : String}
    (h : makeSagaId sagaDescriptor originEventId = .ok sagaId) :
    parseSagaId sagaId = .ok (sagaDescriptor, originEventId) ↔ ':' ∉ originEventId.toList :=
  ⟨parseSagaId_colon, parseSagaId_makeSagaId h⟩

namespace EventStore

variable {I V σ : Type}

/-- The call gets to the storage, whatever that does. -/
def Accepts (sagaId : String) (beforeEvent : Event I V) : Prop :=
  ∀ eventStorageReader, getSagaEvents eventStorageReader sagaId beforeEvent
    = eventStorageReader sagaId beforeEvent

theorem accepts_of_parse {sagaId sagaDescriptor originEventId : String} {beforeEvent : Event I V}
    (hid : beforeEvent.id.getD "" ≠ "")
    (hp : parseSagaId sagaId = .ok (sagaDescriptor, originEventId))
    (ho : beforeEvent.sagaOrigin sagaDescriptor = some originEventId) :
    Accepts sagaId beforeEvent := by
  have hs : sagaId ≠ "" := by
    rintro rfl
    simp [parseSagaId, assertString, bind, Except.bind] at hp
  intro eventStorageReader
  simp [getSagaEvents, assertDefined, truthy, hs, hid, hp, ho, bind, Except.bind]

/-- A saga that an event has started is found again by its id for each later event of it, if and
only if the starter's id has no colon. -/
theorem saga_continues_iff {T : SagaType I V σ} {starter : Event I V} {sagaId originEventId : String}
    (h : T.sagaFor starter = .ok (.createSaga sagaId, sagaId, originEventId)) :
    (parseSagaId sagaId = .ok (T.sagaDescriptor, originEventId)
      ∧ ∀ event : Event I V, event.sagaOrigin T.sagaDescriptor = some originEventId →
        ∀ sagaId', T.sagaFor event = .ok (.restoreSaga sagaId' event, sagaId', originEventId) →
          Accepts sagaId' event)
    ↔ ':' ∉ originEventId.toList := by
  obtain ⟨-, hmake, -⟩ := SagaType.sagaFor_ok h
  rw [parseSagaId_iff hmake]
  refine and_iff_left_of_imp fun hc event ho sagaId' hevent => ?_
  obtain ⟨hid, hmake', -⟩ := SagaType.sagaFor_ok hevent
  exact accepts_of_parse hid (parseSagaId_makeSagaId hmake' hc) ho

/-- A saga that counts its events. -/
def counted : SagaType String ℕ ℕ where
  sagaDescriptor := "Counted"
  startsWith := some ["started"]
  handles := ["continued"]
  sagaFactory _ := 0
  mutate state _ := state + 1

def started (id : String) : Event String ℕ := { id := some id, type := "started", payload := 0 }

/-- A later event of the saga. -/
def continued (originEventId : String) : Event String ℕ :=
  { id := some "2", type := "continued", payload := 0
    sagaOrigins := some [("Counted", originEventId)] }

theorem saga_continues_counted : Accepts "Counted:1" (continued "1") :=
  have h : counted.sagaFor (started "1") = .ok (.createSaga "Counted:1", "Counted:1", "1") := rfl
  ((saga_continues_iff h).2 (by decide)).2 (continued "1") rfl "Counted:1" rfl

/-- A starter with a colon in its id is handled, and no later event of its saga is accepted. -/
theorem saga_continues_fails :
    counted.sagaFor (started "a:1") = .ok (.createSaga "Counted:a:1", "Counted:a:1", "a:1")
    ∧ counted.sagaFor (continued "a:1")
      = .ok (.restoreSaga "Counted:a:1" (continued "a:1"), "Counted:a:1", "a:1")
    ∧ parseSagaId "Counted:a:1" ≠ .ok ("Counted", "a:1")
    ∧ ¬ Accepts "Counted:a:1" (continued "a:1") := by
  refine ⟨rfl, rfl, by decide, fun h => ?_⟩
  have hread := h fun _ _ => .ok []
  exact absurd hread (by decide)

end EventStore

end NodeCqrs
