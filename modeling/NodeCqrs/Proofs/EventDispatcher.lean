import Mathlib.Tactic.Common
import NodeCqrs.EventDispatcher

/-!
# What a rejected dispatch leaves in the default pipeline's storages

The event storage appends a batch or leaves its events alone (`commitEvents_ok`), so events are
left behind only when the processor after it fails, on a snapshot event with no aggregate id. The
snapshot storage deletes the snapshot of each aggregate the batch has a snapshot event of, whether
or not it saved that one (`revert_snapshots`). `rejectsUnchanged_iff` puts the two together.
-/

namespace NodeCqrs

variable {I V : Type}

/-- The event without its id. -/
def forgetId (e : Event I V) : Event I V := { e with id := none }

theorem map_congr_forgetId {α : Type*} (f : Event I V → α) (hf : ∀ e, f (forgetId e) = f e)
    {events events' : List (Event I V)} (h : events'.map forgetId = events.map forgetId) :
    events'.map f = events.map f := by
  have hcomp : f = f ∘ forgetId := funext fun e => (hf e).symm
  rw [hcomp, ← List.map_map, h, List.map_map]

namespace InMemoryEventStorage

@[simp] theorem getNewId_events (s : InMemoryEventStorage I V) :
    s.getNewId.1.events = s.events := rfl

variable [DecidableEq I]

/-- The batch is not taken: an event of it meets a stored event of its version. -/
def Conflicts (s : InMemoryEventStorage I V) (events : List (Event I V))
    (ignoreConcurrencyError : Bool) : Prop :=
  ignoreConcurrencyError = false ∧ ∃ e ∈ events, (conflict s.events e).isSome

instance (s : InMemoryEventStorage I V) (events : List (Event I V)) (ignoreConcurrencyError : Bool) :
    Decidable (Conflicts s events ignoreConcurrencyError) :=
  inferInstanceAs (Decidable (_ ∧ _))

theorem commitEvents_error {s : InMemoryEventStorage I V} {events : List (Event I V)}
    {ignoreConcurrencyError : Bool} (h : Conflicts s events ignoreConcurrencyError) :
    ∃ error, s.commitEvents events ignoreConcurrencyError = .error error := by
  obtain ⟨rfl, hc⟩ := h
  obtain ⟨error, he⟩ := Option.isSome_iff_exists.1 (List.findSome?_isSome_iff.2 hc)
  exact ⟨error, by simp [commitEvents, he]⟩

theorem commitEvents_events {s s' : InMemoryEventStorage I V} {events : List (Event I V)}
    {ignoreConcurrencyError : Bool} (h : s.commitEvents events ignoreConcurrencyError = .ok s') :
    s'.events = s.events ++ events := by
  simp only [commitEvents] at h
  split at h
  · cases h
  · obtain rfl := Except.ok.inj h
    rfl

theorem commitEvents_ok {s : InMemoryEventStorage I V} {events : List (Event I V)}
    {ignoreConcurrencyError : Bool} (h : ¬ Conflicts s events ignoreConcurrencyError) :
    s.commitEvents events ignoreConcurrencyError
      = .ok { s with events := s.events ++ events } := by
  unfold commitEvents
  cases ignoreConcurrencyError with
  | true => rfl
  | false =>
    have : events.findSome? (conflict s.events) = none := by
      rw [← Option.not_isSome_iff_eq_none, List.findSome?_isSome_iff]
      exact fun hc => h ⟨rfl, hc⟩
    simp [this]

theorem conflicts_forgetId {s s' : InMemoryEventStorage I V} {events events' : List (Event I V)}
    {ignoreConcurrencyError : Bool} (hs : s'.events = s.events)
    (h : events'.map forgetId = events.map forgetId) :
    Conflicts s' events' ignoreConcurrencyError ↔ Conflicts s events ignoreConcurrencyError := by
  have := map_congr_forgetId (fun e => (conflict s.events e).isSome) (fun e => rfl) h
  have hex : ∀ l : List (Event I V), (∃ e ∈ l, (conflict s.events e).isSome)
      ↔ true ∈ l.map fun e => (conflict s.events e).isSome := by simp
  rw [Conflicts, Conflicts, hs, hex, hex, this]

end InMemoryEventStorage

namespace InMemorySnapshotStorage

variable [Truthy I] [Truthy V]

/-- `saveAggregateSnapshot` and `deleteAggregateSnapshot` take the event. -/
def hasAggregateId (e : Event I V) : Bool := e.aggregateId.any (truthy ·)

omit [Truthy V] in
theorem assertAggregateId_ok {e : Event I V} (h : hasAggregateId e) :
    ∃ id, e.aggregateId = some id ∧ assertAggregateId e = .ok id := by
  obtain ⟨id, hid, ht⟩ := Option.any_eq_true .. |>.1 h
  exact ⟨id, hid, by simp [assertAggregateId, hid, Option.filter_some, ht]⟩

omit [Truthy V] in
theorem assertAggregateId_error {e : Event I V} (h : ¬ hasAggregateId e) :
    ∃ error, assertAggregateId e = .error error := by
  unfold assertAggregateId
  rcases hid : e.aggregateId with _ | id
  · exact ⟨_, rfl⟩
  · have ht : truthy id = false := by simpa [hasAggregateId, hid] using h
    exact ⟨_, by simp [Option.filter_some, ht]; rfl⟩

variable [DecidableEq I]

omit [Truthy V] in
theorem saveAggregateSnapshot_eq (s : InMemorySnapshotStorage I V) {event : Event I V} {id : I}
    (hid : event.aggregateId = some id) : s.saveAggregateSnapshot event =
      if truthy id = true then .ok { s with snapshots := Function.update s.snapshots id (some event) }
      else .error (.typeError "snapshotEvent.aggregateId is required") := by
  simp only [saveAggregateSnapshot, assertAggregateId, hid, Option.filter_some]
  split_ifs <;> rfl

omit [Truthy V] in
/-- A deletion makes no snapshots. -/
theorem deleteAggregateSnapshot_snapshots {s s' : InMemorySnapshotStorage I V} {event S : Event I V}
    {id : I} (h : s.deleteAggregateSnapshot event = .ok s') (hS : s'.snapshots id = some S) :
    s.snapshots id = some S := by
  rw [deleteAggregateSnapshot] at h
  rcases ha : assertAggregateId event with _ | id' <;> rw [ha] at h
  · cases h
  · obtain rfl := Except.ok.inj h
    by_cases hid : id = id'
    · simp [hid] at hS
    · simpa [hid] using hS

omit [Truthy V] in
/-- The loop over deletions stops at the first event with no aggregate id. -/
theorem forEach_delete_snapshots (id : I) : ∀ (events : List (Event I V))
    (s : InMemorySnapshotStorage I V),
    (forEach deleteAggregateSnapshot s events).1.snapshots id
      = if some id ∈ (events.takeWhile (hasAggregateId ·)).map (·.aggregateId) then none
        else s.snapshots id
  | [], s => by simp [forEach]
  | e :: events, s => by
    by_cases he : hasAggregateId e
    · obtain ⟨eid, hid, hok⟩ := assertAggregateId_ok he
      have hdel : deleteAggregateSnapshot s e
          = .ok { s with snapshots := Function.update s.snapshots eid none } := by
        simp [deleteAggregateSnapshot, hok, Except.map]
      simp only [forEach, hdel, forEach_delete_snapshots id events, he, List.takeWhile_cons_of_pos,
        List.map_cons, List.mem_cons, hid, Option.some.injEq]
      by_cases hie : id = eid
      · simp [hie]
      · simp [hie]
    · obtain ⟨error, herr⟩ := assertAggregateId_error he
      have hdel : deleteAggregateSnapshot s e = .error error := by
        simp [deleteAggregateSnapshot, herr, Except.map]
      simp [forEach, hdel, he]

omit [Truthy V] in
/-- The loop over saves meets no error when each event has an aggregate id. -/
theorem forEach_save_error : ∀ (events : List (Event I V)) (s : InMemorySnapshotStorage I V),
    (forEach saveAggregateSnapshot s events).2 = none ↔ ∀ e ∈ events, hasAggregateId e
  | [], s => by simp [forEach]
  | e :: events, s => by
    by_cases he : hasAggregateId e
    · obtain ⟨eid, -, hok⟩ := assertAggregateId_ok he
      have hsave : saveAggregateSnapshot s e
          = .ok { s with snapshots := Function.update s.snapshots eid (some e) } := by
        simp [saveAggregateSnapshot, hok, Except.map]
      simp [forEach, hsave, forEach_save_error events, he]
    · obtain ⟨error, herr⟩ := assertAggregateId_error he
      have hsave : saveAggregateSnapshot s e = .error error := by
        simp [saveAggregateSnapshot, herr, Except.map]
      simp [forEach, hsave, he]

omit [Truthy V] in
/-- Only a snapshot event with no aggregate id stops the saves. -/
theorem process_error [Truthy V] {s : InMemorySnapshotStorage I V} {batch : List (Envelope I V)} :
    (∃ error, (s.process batch).2 = .error error)
      ↔ ∃ e ∈ batch.filterMap (·.event), isSnapshotEvent e ∧ ¬ hasAggregateId e := by
  have hiff : (forEach saveAggregateSnapshot s (snapshotEvents batch)).2 ≠ none
      ↔ ∃ e ∈ batch.filterMap (·.event), isSnapshotEvent e ∧ ¬ hasAggregateId e := by
    rw [ne_eq, forEach_save_error, snapshotEvents]
    simp only [List.mem_filter, not_forall, exists_prop, and_assoc]
  rw [← hiff]
  unfold process
  rcases forEach saveAggregateSnapshot s (snapshotEvents batch) with ⟨s', _ | error⟩ <;> simp

/-- The aggregates whose snapshots reverting a batch deletes. -/
def reverted (events : List (Event I V)) : List (Option I) :=
  ((events.filter (isSnapshotEvent ·)).takeWhile (hasAggregateId ·)).map (·.aggregateId)

omit [DecidableEq I] in
theorem reverted_forgetId {events events' : List (Event I V)}
    (h : events'.map forgetId = events.map forgetId) : reverted events' = reverted events := by
  have key : ∀ l : List (Event I V), reverted l = (((l.map forgetId).filter
      (isSnapshotEvent ·)).takeWhile (hasAggregateId ·)).map (·.aggregateId) := by
    intro l
    rw [reverted, List.filter_map, List.takeWhile_map, List.map_map]
    rfl
  rw [key, key, h]

/-- Reverting a batch leaves the snapshots alone just when there are none of those aggregates. -/
theorem revert_snapshots (s : InMemorySnapshotStorage I V) (batch : List (Envelope I V)) :
    (s.revert batch).1.snapshots = s.snapshots
      ↔ ∀ id, some id ∈ reverted (batch.filterMap (·.event)) → s.snapshots id = none := by
  have hsnap : ∀ id, (s.revert batch).1.snapshots id
      = if some id ∈ reverted (batch.filterMap (·.event)) then none else s.snapshots id := by
    intro id
    simp only [revert, forEach_delete_snapshots id, snapshotEvents, reverted]
    congr
  rw [funext_iff]
  refine forall_congr' fun id => ?_
  rw [hsnap]
  split_ifs with h
  · simp [h, eq_comm]
  · simp [h]

end InMemorySnapshotStorage

namespace EventDispatcher

@[simp] theorem filterMap_envelopes (events : List (Event I V)) (ignore : Bool) :
    (envelopes events ignore).filterMap (·.event) = events := by
  simp [envelopes, List.filterMap_map]

@[simp] theorem batchEvents_envelopes (ignore : Bool) : ∀ events : List (Event I V),
    InMemoryEventStorage.batchEvents (envelopes events ignore) = .ok events
  | [] => rfl
  | e :: events => by
    have := batchEvents_envelopes ignore events
    simp only [envelopes, List.map_cons, InMemoryEventStorage.batchEvents] at this ⊢
    rw [this]
    rfl

theorem process_ok [DecidableEq I] {s s' : InMemoryEventStorage I V} {events : List (Event I V)}
    {ignore : Bool} {data : List (Envelope I V)}
    (h : s.process (envelopes events ignore) = (s', .ok data)) :
    s'.events = s.events ++ events ∧ data = envelopes events ignore := by
  simp only [InMemoryEventStorage.process, batchEvents_envelopes] at h
  split at h
  · rename_i hs
    obtain ⟨rfl, hd⟩ := Prod.mk.inj h
    exact ⟨InMemoryEventStorage.commitEvents_events hs, (Except.ok.inj hd).symm⟩
  · cases h

theorem process_envelopes [DecidableEq I] {s : InMemoryEventStorage I V}
    {events : List (Event I V)} (ignore : Bool) (hne : events ≠ []) :
    s.process (envelopes events ignore) = match s.commitEvents events ignore with
      | .ok s' => (s', .ok (envelopes events ignore))
      | .error error => (s, .error error) := by
  have hhead : (envelopes events ignore).head?.any (·.ignoreConcurrencyError) = ignore := by
    obtain ⟨e, rest, rfl⟩ := List.exists_cons_of_ne_nil hne
    rfl
  simp only [InMemoryEventStorage.process, batchEvents_envelopes, hhead]
  rfl

/-- Where conflicts count, the storage rejects the batches that meet one. -/
theorem process_rejects [DecidableEq I] (s : InMemoryEventStorage I V) (events : List (Event I V)) :
    (∃ error, (s.process (envelopes events false)).2 = .error error) ↔
      InMemoryEventStorage.Conflicts s events false := by
  have hhead : (envelopes events false).head?.any (·.ignoreConcurrencyError) = false := by
    cases events <;> rfl
  simp only [InMemoryEventStorage.process, batchEvents_envelopes, hhead, Except.bind]
  by_cases hc : InMemoryEventStorage.Conflicts s events false
  · obtain ⟨error, he⟩ := InMemoryEventStorage.commitEvents_error hc
    simp [he, hc]
  · simp [InMemoryEventStorage.commitEvents_ok hc, hc]

variable {S : Type} [Truthy V] {processors : List (Processor S I V)} {s s' : S}
  {events : List (Event I V)} {ignore : Bool} {data' : List (Envelope I V)}

theorem dispatch_invalid (hv : ¬ (isEventSet events = true ∧ events ≠ [])) :
    dispatch processors s events ignore
      = (s, .error (.typeError "dispatch requires a non-empty array of events")) :=
  if_pos (by simpa [Bool.or_eq_true, Classical.or_iff_not_imp_left] using hv)

theorem dispatch_ok (hv : isEventSet events = true ∧ events ≠ [])
    (h : EventDispatchPipeline.processAll processors s (envelopes events ignore)
      = (s', data', none)) :
    ∃ published, dispatch processors s events ignore = (s', .ok published) :=
  ⟨_, by unfold dispatch; rw [if_neg (by simp [hv.1, hv.2]), h]⟩

/-- Where a processor fails, what is left is what the reverts leave. -/
theorem dispatch_error {error : DispatchError I} (hv : isEventSet events = true ∧ events ≠ [])
    (h : EventDispatchPipeline.processAll processors s (envelopes events ignore)
      = (s', data', some error)) :
    ∃ error', dispatch processors s events ignore
      = ((EventDispatchPipeline.revert processors s' data').1, .error error') := by
  unfold dispatch
  rw [if_neg (by simp [hv.1, hv.2]), h]
  rcases hr : EventDispatchPipeline.revert processors s' data' with ⟨s'', _ | publishError⟩
  · exact ⟨error, by simp [hr]⟩
  · exact ⟨publishError, by simp [hr]⟩

end EventDispatcher

namespace Storages

open EventDispatcher

variable [DecidableEq I] [Truthy I] [Truthy V]

omit [DecidableEq I] [Truthy I] [Truthy V] in
/-- The augmentor assigns ids and nothing else. -/
theorem augment_spec (ignore : Bool) : ∀ (events : List (Event I V))
    (s : InMemoryEventStorage I V), ∃ events', (augment s (envelopes events ignore)).2
        = envelopes events' ignore
      ∧ events'.map forgetId = events.map forgetId
      ∧ (augment s (envelopes events ignore)).1.events = s.events
  | [], s => ⟨[], rfl, rfl, rfl⟩
  | e :: events, s => by
    by_cases he : e.id.any (· ≠ "")
    · obtain ⟨events', h1, h2, h3⟩ := augment_spec ignore events s
      refine ⟨e :: events', ?_⟩
      simp only [envelopes, List.map_cons, augment] at h1 h2 h3 ⊢
      rw [if_pos he]
      simp [h1, h2, h3]
    · obtain ⟨events', h1, h2, h3⟩ := augment_spec ignore events s.getNewId.1
      refine ⟨{ e with id := some s.getNewId.2 } :: events', ?_⟩
      simp only [envelopes, List.map_cons, augment] at h1 h2 h3 ⊢
      rw [if_neg he]
      simp [h1, h2, h3, forgetId]

/-- Of the default pipeline's processors the snapshot storage alone reverts. -/
theorem revert_pipeline (s : Storages I V) (batch : List (Envelope I V)) :
    (EventDispatchPipeline.revert eventDispatchPipeline s batch).1
      = { s with snapshotStorage := (s.snapshotStorage.revert batch).1 } := by
  simp only [eventDispatchPipeline, EventDispatchPipeline.revert, eventIdAugmentor,
    inMemoryEventStorage, inMemorySnapshotStorage]
  rcases s.snapshotStorage.revert batch with ⟨s', _ | error⟩ <;> rfl

/-- A conflict: the event storage is left alone and the snapshots are reverted. -/
theorem dispatch_conflict {s : Storages I V} {events : List (Event I V)} {ignore : Bool}
    (hv : isEventSet events = true ∧ events ≠ [])
    (hc : InMemoryEventStorage.Conflicts s.eventStorage events ignore) :
    ∃ error s' events', dispatch eventDispatchPipeline s events ignore = (s', .error error)
      ∧ events'.map forgetId = events.map forgetId
      ∧ s'.eventStorage.events = s.eventStorage.events
      ∧ s'.snapshotStorage = (s.snapshotStorage.revert (envelopes events' ignore)).1 := by
  obtain ⟨events', h1, h2, h3⟩ := augment_spec ignore events s.eventStorage
  obtain ⟨error, herr⟩ := InMemoryEventStorage.commitEvents_error
    ((InMemoryEventStorage.conflicts_forgetId h3 h2).2 hc)
  have hne : events' ≠ [] := fun h => hv.2 (by simpa [h] using h2.symm)
  have hall : EventDispatchPipeline.processAll eventDispatchPipeline s (envelopes events ignore)
      = ({ s with eventStorage := (augment s.eventStorage (envelopes events ignore)).1 },
          envelopes events' ignore, some error) := by
    simp [EventDispatchPipeline.processAll, eventDispatchPipeline, eventIdAugmentor,
      inMemoryEventStorage, h1, process_envelopes ignore hne, herr]
  obtain ⟨error', hd⟩ := dispatch_error hv hall
  rw [revert_pipeline] at hd
  exact ⟨_, _, events', hd, h2, h3, rfl⟩

/-- No conflict: the events are appended, and stay when the snapshot storage fails. -/
theorem dispatch_appends {s : Storages I V} {events : List (Event I V)} {ignore : Bool}
    (hv : isEventSet events = true ∧ events ≠ [])
    (hc : ¬ InMemoryEventStorage.Conflicts s.eventStorage events ignore) :
    (dispatch eventDispatchPipeline s events ignore).1.eventStorage.events ≠ s.eventStorage.events
    ∧ ((∃ error, (dispatch eventDispatchPipeline s events ignore).2 = .error error)
      ↔ ∃ e ∈ events, isSnapshotEvent e ∧ ¬ InMemorySnapshotStorage.hasAggregateId e) := by
  obtain ⟨events', h1, h2, h3⟩ := augment_spec ignore events s.eventStorage
  have hok := InMemoryEventStorage.commitEvents_ok
    (mt (InMemoryEventStorage.conflicts_forgetId h3 h2).1 hc)
  have hne : events' ≠ [] := fun h => hv.2 (by simpa [h] using h2.symm)
  have hids : (∃ e ∈ events, isSnapshotEvent e ∧ ¬ InMemorySnapshotStorage.hasAggregateId e)
      ↔ ∃ e ∈ events', isSnapshotEvent e ∧ ¬ InMemorySnapshotStorage.hasAggregateId e := by
    have := map_congr_forgetId (fun e => isSnapshotEvent e
      && !InMemorySnapshotStorage.hasAggregateId e) (fun e => rfl) h2
    have hex : ∀ l : List (Event I V), (∃ e ∈ l, isSnapshotEvent e
        ∧ ¬ InMemorySnapshotStorage.hasAggregateId e) ↔ true ∈ l.map fun e => isSnapshotEvent e
          && !InMemorySnapshotStorage.hasAggregateId e := by simp
    rw [hex, hex, this]
  rw [hids, ← filterMap_envelopes events' ignore,
    ← InMemorySnapshotStorage.process_error (s := s.snapshotStorage)]
  let s₁ := { (augment s.eventStorage (envelopes events ignore)).1 with
    events := (augment s.eventStorage (envelopes events ignore)).1.events ++ events' }
  rcases hp : s.snapshotStorage.process (envelopes events' ignore) with ⟨s₂, error | data'⟩
  · have hall : EventDispatchPipeline.processAll eventDispatchPipeline s (envelopes events ignore)
        = (⟨s₁, s₂⟩, envelopes events' ignore, some error) := by
      simp [EventDispatchPipeline.processAll, eventDispatchPipeline, eventIdAugmentor,
        inMemoryEventStorage, inMemorySnapshotStorage, h1, process_envelopes ignore hne, hok, hp,
        s₁]
    obtain ⟨error', hd⟩ := dispatch_error hv hall
    simp [hd, revert_pipeline, s₁, h3, hne]
  · have hall : EventDispatchPipeline.processAll eventDispatchPipeline s (envelopes events ignore)
        = (⟨s₁, s₂⟩, data', none) := by
      simp [EventDispatchPipeline.processAll, eventDispatchPipeline, eventIdAugmentor,
        inMemoryEventStorage, inMemorySnapshotStorage, h1, process_envelopes ignore hne, hok, hp,
        s₁]
    obtain ⟨published, hd⟩ := dispatch_ok hv hall
    simp [hd, s₁, h3, hne]

/-- If the dispatch of the events rejects, both storages hold what they held. -/
def RejectsUnchanged (s : Storages I V) (events : List (Event I V)) (ignore : Bool) : Prop :=
  ∀ s' error, dispatch eventDispatchPipeline s events ignore = (s', .error error) →
    s'.eventStorage.events = s.eventStorage.events
      ∧ ∀ id, s'.snapshotStorage.getAggregateSnapshot id = s.snapshotStorage.getAggregateSnapshot id

/-- A rejected dispatch leaves the storages as they were if and only if its events are no event
set, or they conflict and none of the snapshots to revert is there, or they do not conflict and
each snapshot event has an aggregate id. -/
theorem rejectsUnchanged_iff (s : Storages I V) (events : List (Event I V)) (ignore : Bool) :
    RejectsUnchanged s events ignore ↔
      ¬ (isEventSet events = true ∧ events ≠ [])
      ∨ (InMemoryEventStorage.Conflicts s.eventStorage events ignore
        ∧ ∀ id, some id ∈ InMemorySnapshotStorage.reverted events →
          s.snapshotStorage.getAggregateSnapshot id = none)
      ∨ (¬ InMemoryEventStorage.Conflicts s.eventStorage events ignore
        ∧ ∀ e ∈ events, isSnapshotEvent e → InMemorySnapshotStorage.hasAggregateId e) := by
  unfold RejectsUnchanged
  by_cases hv : isEventSet events = true ∧ events ≠ []
  swap
  · simp +contextual [dispatch_invalid hv, hv]
  rw [or_iff_right (not_not.2 hv)]
  by_cases hc : InMemoryEventStorage.Conflicts s.eventStorage events ignore
  · obtain ⟨error, s', events', hd, hf, he, hs⟩ := dispatch_conflict hv hc
    have hrev := InMemorySnapshotStorage.revert_snapshots s.snapshotStorage
      (envelopes events' ignore)
    rw [← hs, filterMap_envelopes, InMemorySnapshotStorage.reverted_forgetId hf] at hrev
    simp only [hd, hc, not_true, true_and, false_and, or_false, Prod.mk.injEq,
      Except.error.injEq]
    rw [funext_iff] at hrev
    exact ⟨fun h => hrev.1 (h s' error ⟨rfl, rfl⟩).2,
      fun h => by rintro _ _ ⟨rfl, -⟩; exact ⟨he, hrev.2 h⟩⟩
  · obtain ⟨hne, hrej⟩ := dispatch_appends hv hc
    simp only [hc, false_or, false_and, not_false_eq_true, true_and]
    constructor
    · intro h e he hse
      by_contra hid
      obtain ⟨error, herr⟩ := hrej.2 ⟨e, he, hse, hid⟩
      exact hne (h _ error (Prod.ext rfl herr)).1
    · intro h s' error hd
      obtain ⟨e, he, hse, hid⟩ := hrej.1 ⟨error, by rw [hd]⟩
      exact absurd (h e he hse) hid

section Runs

def snapshotOf (aggregateId : String) (version : ℕ) : Event String String :=
  { type := "snapshot", aggregateId := some aggregateId, aggregateVersion := some version,
    payload := "state" }

def changedAt (aggregateId : String) (version : ℕ) : Event String String :=
  { type := "changed", aggregateId := some aggregateId, aggregateVersion := some version,
    payload := "state" }

/-- A writer's batch with a snapshot comes second: the snapshot stored before it is gone. -/
theorem rejectsUnchanged_fails :
    ¬ ∀ (s : Storages String String) (events : List (Event String String)) (ignore : Bool),
      RejectsUnchanged s events ignore := by
  intro hall
  let s : Storages String String := {
    eventStorage := { nextId := 2, events := [changedAt "a" 0, snapshotOf "a" 1, changedAt "a" 2] }
    snapshotStorage :=
      { snapshots := fun id => if id = "a" then some (snapshotOf "a" 1) else none } }
  have hr := hall s [changedAt "a" 2, snapshotOf "a" 3] false _ _ rfl
  exact absurd (hr.2 "a") (by decide)

end Runs

end Storages

end NodeCqrs
