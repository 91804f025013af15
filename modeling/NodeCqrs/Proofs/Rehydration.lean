import NodeCqrs.Proofs.AggregateLog
import NodeCqrs.Proofs.EventDispatcher
import NodeCqrs.Rehydration

/-!
# Restoring from a snapshot and replaying

The snapshots that are stored and saved are of the states their events leave (`Stored`). One is
assigned to the state the constructor makes, so what is restored from it is what a replay gives, as
long as the snapshot has every property of that state (`rehydrates_iff`); a property that was
deleted is there again (`rehydrates_fails`).
-/

namespace NodeCqrs

/-! ## Objects -/

section objectAssign

variable {P : Type} {target source : Properties P}

theorem objectAssign_of_keys (h : target.keys ⊆ source.keys) :
    objectAssign target source = source := by
  refine Finmap.ext_lookup fun key => ?_
  by_cases hk : key ∈ source
  · exact Finmap.lookup_union_left hk
  · have hk' : key ∉ target := fun hmem => hk (Finmap.mem_keys.1 (h (Finmap.mem_keys.2 hmem)))
    rw [objectAssign, Finmap.lookup_union_right hk, Finmap.lookup_eq_none.2 hk,
      Finmap.lookup_eq_none.2 hk']

theorem objectAssign_self (source : Properties P) : objectAssign source source = source :=
  objectAssign_of_keys (Finset.Subset.refl _)

theorem keys_subset_objectAssign (target source : Properties P) :
    target.keys ⊆ (objectAssign target source).keys := by
  intro key hk
  exact Finmap.mem_keys.2 (Finmap.mem_union.2 (.inr (Finmap.mem_keys.1 hk)))

end objectAssign

namespace PropertiesAggregate

variable {I P : Type} (T : PropertiesAggregate I P)
  {a a' : Aggregate I (Properties P) (Properties P)} {S : Event I (Properties P)}

theorem mutateState_snapshot (state : Properties P) (ht : S.type = SNAPSHOT_EVENT_TYPE) :
    T.aggregateType.mutateState state S = (objectAssign state S.payload, true) := by
  have hi : isSnapshotEvent S = true := by
    simp [isSnapshotEvent, isEvent, ht, SNAPSHOT_EVENT_TYPE, truthy]
  simp [AggregateType.mutateState, ht, hi, aggregateType]

theorem mutateState_returned (state : Properties P) (event : Event I (Properties P)) :
    (T.aggregateType.mutateState state event).2 = true := by
  by_cases ht : event.type = SNAPSHOT_EVENT_TYPE
  · rw [T.mutateState_snapshot state ht]
  · simp [AggregateType.mutateState, ht, aggregateType]

/-- A snapshot that leaves the same of two states leaves the same of the instances. -/
theorem mutate_snapshot {k : ℕ} (hid : a.id = a'.id) (hc : a.changes = a'.changes)
    (hcmd : a.command = a'.command) (hv : S.aggregateVersion = some k)
    (ht : S.type = SNAPSHOT_EVENT_TYPE)
    (hs : objectAssign a.state S.payload = objectAssign a'.state S.payload) :
    T.aggregateType.mutate a S = T.aggregateType.mutate a' S := by
  unfold AggregateType.mutate
  rw [T.mutateState_snapshot a.state ht, T.mutateState_snapshot a'.state ht, hs, hv]
  simp only [Option.getD_some, if_pos ht, hid, hc, hcmd]

theorem mutateAll_cons (event : Event I (Properties P)) (events : List (Event I (Properties P))) :
    T.aggregateType.mutateAll a (event :: events)
      = T.aggregateType.mutateAll (T.aggregateType.mutate a event).1 events := by
  have h : (T.aggregateType.mutate a event).2 = true := T.mutateState_returned a.state event
  rw [AggregateType.mutateAll]
  split
  · rename_i hm
    rw [hm]
  · rename_i hm
    simp [hm] at h

/-- No restoration fails. -/
theorem mutateAll_some : ∀ (events : List (Event I (Properties P)))
    (a : Aggregate I (Properties P) (Properties P)), ∃ a', T.aggregateType.mutateAll a events = some a'
  | [], a => ⟨a, rfl⟩
  | event :: events, a => by
    rw [T.mutateAll_cons]
    exact mutateAll_some events _

theorem restores (event : Event I (Properties P)) : T.aggregateType.restores event = true := rfl

theorem sufficient (state : Properties P) (events : List (Event I (Properties P))) :
    T.aggregateType.Sufficient state events :=
  AggregateType.sufficient_of_restores T.restores state events

theorem query_eq (all : List (Event I (Properties P))) : T.aggregateType.query all = all := by
  unfold AggregateType.query
  have h1 : all.filter (T.aggregateType.restores ·) = all :=
    List.filter_eq_self.2 fun e _ => T.restores e
  have h2 : all.getLast?.filter (!T.aggregateType.restores ·) = none := by
    rcases all.getLast? with _ | e
    · rfl
    · simp [Option.filter, T.restores]
  rw [h1, h2, Option.toList_none, List.append_nil]

end PropertiesAggregate

/-! ## A snapshot among the stored events -/

namespace PropertiesAggregate

variable {I P : Type} [DecidableEq I] (T : PropertiesAggregate I P)
  {log : List (Event I (Properties P))} {id : I} {S : Event I (Properties P)} {k : ℕ}

/-- The stored event of version `k` is a snapshot of the state before it. -/
structure SnapshotAt (log : List (Event I (Properties P))) (id : I) (S : Event I (Properties P))
    (k : ℕ) : Prop where
  getElem : (stored log id)[k]? = some S
  version : S.aggregateVersion = some k
  type : S.type = SNAPSHOT_EVENT_TYPE
  payload : S.payload = T.aggregateType.stateAfter (T.state id) ((stored log id).take k)

variable {T}

theorem SnapshotAt.split (h : T.SnapshotAt log id S k) :
    stored log id = (stored log id).take k ++ S :: (stored log id).drop (k + 1) := by
  obtain ⟨hlt, hget⟩ := List.getElem?_eq_some_iff.1 h.getElem
  rw [← hget, ← List.drop_eq_getElem_cons hlt, List.take_append_drop]

/-- What is yielded after the snapshot. -/
theorem SnapshotAt.events (h : T.SnapshotAt log id S k)
    (hn : Numbered (·.aggregateVersion) 0 (stored log id)) :
    T.aggregateType.getAggregateEvents log id (some S)
      = S :: if k = 0 then stored log id else (stored log id).drop (k + 1) := by
  rw [AggregateType.getAggregateEvents_eq, T.query_eq,
    AggregateType.allAfterSnapshot_some h.version hn]
  rfl

theorem getAggregateEvents_none :
    T.aggregateType.getAggregateEvents log id none = stored log id := by
  rw [AggregateType.getAggregateEvents_eq, T.query_eq]
  rfl

/-- The snapshot makes of a new instance what it leaves of one that has applied the events before. -/
theorem SnapshotAt.restores (h : T.SnapshotAt log id S k)
    (hn : Numbered (·.aggregateVersion) 0 (stored log id))
    (hkeys : (T.state id).keys ⊆ S.payload.keys) :
    T.aggregateType.mutateAll (T.aggregateType.create id)
        (T.aggregateType.getAggregateEvents log id (some S))
      = T.aggregateType.mutateAll (T.aggregateType.create id)
        (T.aggregateType.getAggregateEvents log id none) := by
  have hnew : objectAssign (T.state id) S.payload = S.payload := objectAssign_of_keys hkeys
  rw [h.events hn, getAggregateEvents_none]
  rcases Nat.eq_zero_or_pos k with rfl | hpos
  · -- a snapshot of version 0 is yielded twice
    have hsplit : stored log id = S :: (stored log id).drop 1 := h.split
    have htwice : T.aggregateType.mutate (T.aggregateType.mutate (T.aggregateType.create id) S).1 S
        = T.aggregateType.mutate (T.aggregateType.create id) S := by
      refine T.mutate_snapshot rfl rfl rfl h.version h.type ?_
      rw [AggregateType.mutate_state, T.mutateState_snapshot _ h.type]
      show objectAssign (objectAssign (T.state id) S.payload) S.payload
        = objectAssign (T.state id) S.payload
      rw [hnew, objectAssign_self]
    rw [if_pos rfl, hsplit, T.mutateAll_cons, T.mutateAll_cons, htwice, T.mutateAll_cons]
  · obtain ⟨b, hb⟩ := T.mutateAll_some ((stored log id).take k) (T.aggregateType.create id)
    obtain ⟨hid, hchanges, hcommand, hstate⟩ := AggregateType.mutateAll_spec hb
    have hsame : T.aggregateType.mutate b S
        = T.aggregateType.mutate (T.aggregateType.create id) S := by
      refine T.mutate_snapshot hid hchanges hcommand h.version h.type ?_
      calc objectAssign b.state S.payload = objectAssign S.payload S.payload := by
            rw [hstate, h.payload]
            rfl
        _ = S.payload := objectAssign_self _
        _ = objectAssign (T.state id) S.payload := hnew.symm
    conv_rhs => rw [h.split, AggregateType.mutateAll_append, hb]
    rw [if_neg (Nat.ne_of_gt hpos), Option.bind_some, T.mutateAll_cons, T.mutateAll_cons, hsame]

/-- The state restored from a snapshot that nothing follows has the properties of a new one. -/
theorem SnapshotAt.keys_of_restores (h : T.SnapshotAt log id S k)
    (hn : Numbered (·.aggregateVersion) 0 (stored log id)) (hlast : (stored log id).length = k + 1)
    {a : Aggregate I (Properties P) (Properties P)}
    (ha : T.aggregateType.mutateAll (T.aggregateType.create id)
      (T.aggregateType.getAggregateEvents log id (some S)) = some a)
    (ha' : T.aggregateType.mutateAll (T.aggregateType.create id)
      (T.aggregateType.getAggregateEvents log id none) = some a) :
    (T.state id).keys ⊆ S.payload.keys := by
  have hdrop : (stored log id).drop (k + 1) = [] := List.drop_eq_nil_of_le (by omega)
  have hsplit := h.split
  rw [hdrop] at hsplit
  have hreplayed : a.state = S.payload := by
    obtain ⟨-, -, -, hstate⟩ := AggregateType.mutateAll_spec ha'
    rw [getAggregateEvents_none, hsplit, AggregateType.stateAfter_append,
      AggregateType.stateAfter_cons, T.mutateState_snapshot _ h.type] at hstate
    calc a.state = objectAssign (T.aggregateType.stateAfter (T.state id)
          ((stored log id).take k)) S.payload := hstate
      _ = S.payload := by rw [← h.payload, objectAssign_self]
  have hrestored : (T.state id).keys ⊆ a.state.keys := by
    obtain ⟨-, -, -, hstate⟩ := AggregateType.mutateAll_spec ha
    have hkeys := keys_subset_objectAssign (T.state id) S.payload
    rw [h.events hn, AggregateType.stateAfter_cons, T.mutateState_snapshot _ h.type] at hstate
    split_ifs at hstate with hk
    · subst hk
      rw [hsplit] at hstate
      have hstate' : a.state = objectAssign (objectAssign (T.state id) S.payload) S.payload := by
        rw [hstate, List.take_zero, List.nil_append, AggregateType.stateAfter_cons,
          T.mutateState_snapshot _ h.type]
        rfl
      rw [hstate']
      exact hkeys.trans (keys_subset_objectAssign _ _)
    · rw [hdrop] at hstate
      rw [hstate]
      exact hkeys
  rwa [hreplayed] at hrestored

end PropertiesAggregate

namespace Rehydration

open EventDispatcher InMemorySnapshotStorage

variable {I P : Type} [DecidableEq I] [Truthy I] {T : PropertiesAggregate I P}
  {s s' : Rehydration I P} {a a' : Aggregate I (Properties P) (Properties P)}
  {events : List (Event I (Properties P))}

abbrev log (s : Rehydration I P) : List (Event I (Properties P)) := s.storages.eventStorage.events

abbrev snapshots (s : Rehydration I P) : I → Option (Event I (Properties P)) :=
  s.storages.snapshotStorage.snapshots

/-! ## Dispatches -/

/-- A batch that conflicts leaves what is stored, but for the snapshots it reverts. -/
theorem dispatch_rejected {storages : Storages I (Properties P)}
    (hv : isEventSet events = true ∧ events ≠ [])
    (hc : InMemoryEventStorage.Conflicts storages.eventStorage events false) :
    ∃ storages' error, dispatch eventDispatchPipeline storages events = (storages', .error error)
      ∧ storages'.eventStorage = storages.eventStorage
      ∧ ∀ id, storages'.snapshotStorage.snapshots id = none
        ∨ storages'.snapshotStorage.snapshots id = storages.snapshotStorage.snapshots id := by
  obtain ⟨error, he⟩ := InMemoryEventStorage.commitEvents_error hc
  have hprocess : EventDispatchPipeline.processAll eventDispatchPipeline storages
      (envelopes events false) = (storages, envelopes events false, some error) := by
    simp [eventDispatchPipeline, EventDispatchPipeline.processAll, Storages.inMemoryEventStorage,
      process_envelopes false hv.2, he]
  obtain ⟨error', hd⟩ := dispatch_error hv hprocess
  refine ⟨_, error', hd, ?_⟩
  have hrevert : (EventDispatchPipeline.revert eventDispatchPipeline storages
      (envelopes events false)).1 = { storages with
        snapshotStorage := (storages.snapshotStorage.revert (envelopes events false)).1 } := by
    rcases hr : storages.snapshotStorage.revert (envelopes events false) with ⟨t, _ | error⟩ <;>
      simp [eventDispatchPipeline, EventDispatchPipeline.revert, Storages.inMemoryEventStorage,
        Storages.inMemorySnapshotStorage, hr]
  rw [hrevert]
  refine ⟨rfl, fun id => ?_⟩
  simp only [InMemorySnapshotStorage.revert, forEach_delete_snapshots]
  split_ifs
  · exact .inl rfl
  · exact .inr rfl

/-- A batch that does not conflict is stored, and its snapshot saved. -/
theorem dispatch_committed {storages : Storages I (Properties P)} {id : I} (hid : truthy id = true)
    (hv : isEventSet events = true ∧ events ≠ [])
    (hofId : ∀ e ∈ events, e.aggregateId = some id)
    (hc : ¬ InMemoryEventStorage.Conflicts storages.eventStorage events false) :
    ∃ storages' published, dispatch eventDispatchPipeline storages events = (storages', .ok published)
      ∧ storages'.eventStorage.events = storages.eventStorage.events ++ events
      ∧ storages'.snapshotStorage = (forEach saveAggregateSnapshot storages.snapshotStorage
        (events.filter (isSnapshotEvent ·))).1 := by
  have hsnap : snapshotEvents (envelopes events false) = events.filter (isSnapshotEvent ·) := by
    rw [snapshotEvents, filterMap_envelopes]
  have hsave : (forEach saveAggregateSnapshot storages.snapshotStorage
      (events.filter (isSnapshotEvent ·))).2 = none := by
    rw [forEach_save_error]
    intro e he
    simp [hasAggregateId, hofId e (List.mem_of_mem_filter he), hid]
  rcases hsaved : forEach saveAggregateSnapshot storages.snapshotStorage
    (events.filter (isSnapshotEvent ·)) with ⟨saved, error⟩
  obtain rfl : error = none := by simpa [hsaved] using hsave
  have hprocess : ∃ data, EventDispatchPipeline.processAll eventDispatchPipeline storages
      (envelopes events false) = ({
        eventStorage := { storages.eventStorage with
          events := storages.eventStorage.events ++ events }
        snapshotStorage := saved }, data, none) := by
    simp [eventDispatchPipeline, EventDispatchPipeline.processAll, Storages.inMemoryEventStorage,
      Storages.inMemorySnapshotStorage, process_envelopes false hv.2,
      InMemoryEventStorage.commitEvents_ok hc, InMemorySnapshotStorage.process, hsnap, hsaved]
  obtain ⟨data, hp⟩ := hprocess
  obtain ⟨published, hd⟩ := dispatch_ok hv hp
  exact ⟨_, published, hd, rfl, rfl⟩

/-! ## Steps -/

/-- What each action can do. -/
inductive Effect (T : PropertiesAggregate I P) (s : Rehydration I P) :
    Action I P → Rehydration I P → Prop
  | restore {i : ℕ} {id : I} : truthy id = true →
      Effect T s (.restore i id) (s.setInstance i (s.rehydrate T id (s.snapshots id)))
  | dropped {i : ℕ} {command : Command I (Properties P)} {emitted : List (String × Properties P)}
      {shouldTakeSnapshot : Bool} {storages : Storages I (Properties P)} :
      (∀ a x, s.instances i = some a →
        T.aggregateType.handle a command emitted shouldTakeSnapshot = some x →
        ∃ e ∈ x.2, (InMemoryEventStorage.conflict s.log e).isSome) →
      storages.eventStorage = s.storages.eventStorage →
      (∀ id, storages.snapshotStorage.snapshots id = none
        ∨ storages.snapshotStorage.snapshots id = s.snapshots id) →
      Effect T s (.handle i command emitted shouldTakeSnapshot)
        ({ s with storages }.setInstance i none)
  | idle {i : ℕ} {command : Command I (Properties P)} {emitted : List (String × Properties P)}
      {shouldTakeSnapshot : Bool} {a a' : Aggregate I (Properties P) (Properties P)} :
      s.instances i = some a →
      T.aggregateType.handle a command emitted shouldTakeSnapshot = some (a', []) →
      T.aggregateType.Handled a a' emitted shouldTakeSnapshot [] →
      Effect T s (.handle i command emitted shouldTakeSnapshot) (s.setInstance i (some a'))
  | committed {i : ℕ} {command : Command I (Properties P)}
      {emitted : List (String × Properties P)} {shouldTakeSnapshot : Bool}
      {a a' : Aggregate I (Properties P) (Properties P)} {events : List (Event I (Properties P))}
      {storages : Storages I (Properties P)} : s.instances i = some a →
      T.aggregateType.handle a command emitted shouldTakeSnapshot = some (a', events) →
      T.aggregateType.Handled a a' emitted shouldTakeSnapshot events →
      SNAPSHOT_EVENT_TYPE ∉ emitted.map Prod.fst → events ≠ [] →
      (∀ e ∈ events, InMemoryEventStorage.conflict s.log e = none) →
      storages.eventStorage.events = s.log ++ events →
      storages.snapshotStorage = (forEach saveAggregateSnapshot s.storages.snapshotStorage
        (events.filter (isSnapshotEvent ·))).1 →
      Effect T s (.handle i command emitted shouldTakeSnapshot)
        ({ s with storages }.setInstance i (some a'))

theorem step_cases (hid : ∀ i a, s.instances i = some a → truthy a.id = true) {x : Action I P}
    (h : step T s x = some s') : Effect T s x s' := by
  cases x with
  | restore i id =>
    rw [step] at h
    split_ifs at h with ht
    obtain rfl := Option.some.inj h
    exact .restore ht
  | handle i command emitted shouldTakeSnapshot =>
    rw [step] at h
    split_ifs at h with hs
    rcases hi : s.instances i with _ | a
    · simp [hi] at h
    rcases hh : T.aggregateType.handle a command emitted shouldTakeSnapshot with _ | ⟨a', events⟩
    · obtain rfl : s.setInstance i none = s' := by simpa [hi, hh] using h
      refine .dropped (fun b x hb hx => ?_) rfl fun _ => .inr rfl
      obtain rfl : a = b := Option.some.inj (hi.symm.trans hb)
      simp [hh] at hx
    have hH := AggregateType.handle_handled hh
    rcases events with _ | ⟨e, rest⟩
    · obtain rfl : s.setInstance i (some a') = s' := by simpa [hi, hh] using h
      exact .idle hi hh hH
    have hv : isEventSet (e :: rest) = true ∧ e :: rest ≠ [] := by
      refine ⟨List.all_eq_true.2 fun x hx => ?_, List.cons_ne_nil e rest⟩
      simpa [isEvent] using hH.types x hx
    by_cases hc : InMemoryEventStorage.Conflicts s.storages.eventStorage (e :: rest) false
    · obtain ⟨storages, error, hd, hlog, hsnap⟩ := dispatch_rejected hv hc
      obtain rfl : _ = s' := by simpa [hi, hh, hd] using h
      refine .dropped (fun b x hb hx => ?_) hlog hsnap
      obtain rfl : a = b := Option.some.inj (hi.symm.trans hb)
      obtain rfl : (a', e :: rest) = x := Option.some.inj (hh.symm.trans hx)
      exact hc.2
    · obtain ⟨storages, published, hd, hlog, hsnap⟩ :=
        dispatch_committed (hid i a hi) hv hH.emitted.ofId hc
      obtain rfl : _ = s' := by simpa [hi, hh, hd] using h
      refine .committed hi hh hH hs hv.2 (fun x hx => ?_) hlog hsnap
      rw [← Option.not_isSome_iff_eq_none]
      exact fun h => hc ⟨rfl, x, hx, h⟩

/-! ## What is stored -/

/-- Restoring from the snapshot that is saved gives what replaying all events does. -/
def Rehydrates (T : PropertiesAggregate I P) (s : Rehydration I P) (id : I) : Prop :=
  ∃ a, s.rehydrate T id (s.snapshots id) = some a ∧ s.rehydrate T id none = some a

/-- A snapshot that is committed has every property of the state the constructor makes. -/
def Covers (T : PropertiesAggregate I P) (s : Rehydration I P) : Action I P → Prop
  | .handle i command emitted true => ∀ a ∈ s.instances i,
    ∀ x ∈ T.aggregateType.handle a command emitted true,
      (∀ e ∈ x.2, (InMemoryEventStorage.conflict s.log e).isNone) →
        (T.state a.id).keys ⊆ x.1.state.keys
  | _ => True

structure Stored (T : PropertiesAggregate I P) (s : Rehydration I P) : Prop where
  numbered : ∀ id, Numbered (·.aggregateVersion) 0 (stored s.log id)
  taken : ∀ id, T.aggregateType.TakenIn s.log id
  snapshots : ∀ id S, s.snapshots id = some S → AggregateType.StoredSnapshot s.log id S
  instances : ∀ i a, s.instances i = some a →
    truthy a.id = true ∧ T.aggregateType.Synced s.log a ∧ a.command = none

/-- With every stored snapshot covering the state a constructor makes. -/
structure Inv (T : PropertiesAggregate I P) (s : Rehydration I P) : Prop extends Stored T s where
  covers : ∀ id S, S ∈ stored s.log id → S.type = SNAPSHOT_EVENT_TYPE →
    (T.state id).keys ⊆ S.payload.keys

omit [Truthy I] in
theorem snapshotAt {log : List (Event I (Properties P))} {id : I} {S : Event I (Properties P)}
    (ht : T.aggregateType.TakenIn log id) (hS : AggregateType.StoredSnapshot log id S) :
    ∃ k, T.SnapshotAt log id S k := by
  obtain ⟨k, hv, hk, htype⟩ := hS
  have hp := ht k S hk htype (T.sufficient _ _)
  exact ⟨k, hk, hv, htype, (Option.some.inj hp).symm⟩

theorem Inv.rehydrates (h : Inv T s) (id : I) : Rehydrates T s id := by
  obtain ⟨a, ha⟩ := T.mutateAll_some (T.aggregateType.getAggregateEvents s.log id none)
    (T.aggregateType.create id)
  refine ⟨a, ?_, ha⟩
  rcases hs : s.snapshots id with _ | S
  · exact ha
  · obtain ⟨k, hS⟩ := snapshotAt (h.taken id) (h.snapshots id S hs)
    have hmem : S ∈ stored s.log id := List.mem_of_getElem? hS.getElem
    exact (hS.restores (h.numbered id) (h.covers id S hmem hS.type)).trans ha

omit [DecidableEq I] [Truthy I] in
/-- The snapshot among the events of a command is of the state they leave. -/
theorem snapshot_payload {emitted : List (String × Properties P)} {shouldTakeSnapshot : Bool}
    (h : T.aggregateType.Handled a a' emitted shouldTakeSnapshot events)
    (hs : SNAPSHOT_EVENT_TYPE ∉ emitted.map Prod.fst) {S : Event I (Properties P)}
    (hS : S ∈ events) (ht : S.type = SNAPSHOT_EVENT_TYPE) :
    shouldTakeSnapshot = true ∧ S.payload = a'.state := by
  obtain ⟨new, hfrom, hsnap⟩ := h.snapshot
  split_ifs at hsnap with hf
  · obtain ⟨S', rfl, htype, hp⟩ := hsnap
    rcases List.mem_append.1 hS with hS | hS
    · exact absurd (ht ▸ hfrom S hS) hs
    · obtain rfl := List.mem_singleton.1 hS
      have hpayload : T.aggregateType.stateAfter a.state new = S.payload := Option.some.inj hp
      refine ⟨hf, ?_⟩
      rw [h.emitted.state, AggregateType.stateAfter_append, AggregateType.stateAfter_cons,
        T.mutateState_snapshot _ ht, hpayload, objectAssign_self]
      rfl
  · exact absurd (ht ▸ hfrom S (hsnap ▸ hS)) hs

omit [Truthy I] in
theorem of_forEach_save : ∀ {events : List (Event I (Properties P))} [Truthy I]
    {t : InMemorySnapshotStorage I (Properties P)} {id : I} {S : Event I (Properties P)},
    (forEach saveAggregateSnapshot t events).1.snapshots id = some S →
      t.snapshots id = some S ∨ S ∈ events ∧ S.aggregateId = some id
  | [], _, t, id, S, h => .inl h
  | e :: events, _, t, id, S, h => by
    unfold forEach at h
    split at h
    · rename_i t' ht
      rcases of_forEach_save h with h | ⟨hS, hid⟩
      · by_cases he : hasAggregateId e
        · obtain ⟨id', hid', hok⟩ := assertAggregateId_ok he
          obtain rfl : _ = t' := by simpa [saveAggregateSnapshot, hok, Except.map] using ht
          by_cases hidid : id = id'
          · subst hidid
            obtain rfl : e = S := by simpa using h
            exact .inr ⟨List.mem_cons_self, hid'⟩
          · exact .inl (by simpa [hidid] using h)
        · obtain ⟨error, herror⟩ := assertAggregateId_error he
          simp [saveAggregateSnapshot, herror, Except.map] at ht
      · exact .inr ⟨List.mem_cons_of_mem e hS, hid⟩
    · exact .inl h

theorem stored_step (h : Inv T s) {x : Action I P} (hst : step T s x = some s') : Stored T s' := by
  have hset : ∀ {i : ℕ} {b : Option (Aggregate I (Properties P) (Properties P))} {j : ℕ}
      {c : Aggregate I (Properties P) (Properties P)},
      Function.update s.instances i b j = some c → s.instances j = some c ∨ b = some c := by
    intro i b j c hj
    by_cases hij : j = i
    · subst hij
      exact .inr (by simpa using hj)
    · exact .inl (by simpa [hij] using hj)
  cases step_cases (fun i a hi => (h.instances i a hi).1) hst with
  | @restore i id hid =>
    refine ⟨h.numbered, h.taken, h.snapshots, fun j c hj => ?_⟩
    rcases hset hj with hj | hj
    · exact h.instances j c hj
    · obtain ⟨b, hb, hb'⟩ := h.rehydrates id
      obtain rfl : b = c := Option.some.inj (hb.symm.trans hj)
      obtain ⟨rfl, hcommand, hsync⟩ := AggregateType.restore_synced (h.numbered id) hb'
      exact ⟨hid, hsync, hcommand⟩
  | @dropped i command emitted shouldTakeSnapshot storages _ hlog hsnap =>
    have hlog' : storages.eventStorage.events = s.log := by rw [hlog]
    refine ⟨fun id => ?_, fun id => ?_, fun id S hS => ?_, fun j c hj => ?_⟩
    · show Numbered _ 0 (stored storages.eventStorage.events id)
      rw [hlog']
      exact h.numbered id
    · show T.aggregateType.TakenIn storages.eventStorage.events id
      rw [hlog']
      exact h.taken id
    · show AggregateType.StoredSnapshot storages.eventStorage.events id S
      have hS' : storages.snapshotStorage.snapshots id = some S := hS
      rw [hlog']
      rcases hsnap id with hnone | hsame
      · rw [hnone] at hS'
        cases hS'
      · exact h.snapshots id S (hsame ▸ hS')
    · show truthy c.id = true ∧ T.aggregateType.Synced storages.eventStorage.events c ∧ _
      rw [hlog']
      rcases hset hj with hj | hj
      · exact h.instances j c hj
      · cases hj
  | @idle i command emitted shouldTakeSnapshot a a' hi hh hH =>
    refine ⟨h.numbered, h.taken, h.snapshots, fun j c hj => ?_⟩
    rcases hset hj with hj | hj
    · exact h.instances j c hj
    · obtain rfl := Option.some.inj hj
      obtain ⟨hid, hsync, -⟩ := h.instances i a hi
      exact ⟨hH.emitted.id ▸ hid, hsync.of_emitted_nil hH.emitted, hH.command⟩
  | @committed i command emitted shouldTakeSnapshot a a' events storages hi hh hH hs hne hc hlog
      hsnap =>
    obtain ⟨hid, hsync, -⟩ := h.instances i a hi
    have hv := AggregateType.start_version (h.numbered a.id) hsync hH.emitted hne hc
    have hst : AggregateType.StandsAt (s.log ++ events) a.id a.version events :=
      hv ▸ AggregateType.standsAt_append hH.emitted.ofId
    have hgrows : s.log <+: s.log ++ events := List.prefix_append _ _
    refine ⟨fun id => ?_, fun id => ?_, fun id S hS => ?_, fun j c hj => ?_⟩
    · show Numbered _ 0 (stored storages.eventStorage.events id)
      rw [hlog, AggregateType.stored_append hH.emitted.ofId]
      split_ifs with hida
      · subst hida
        exact (h.numbered a.id).append (by rw [Nat.zero_add, ← hv]; exact hH.emitted.numbered)
      · simpa using h.numbered id
    · show T.aggregateType.TakenIn storages.eventStorage.events id
      rw [hlog]
      exact AggregateType.takenIn_append h.taken hsync hH.emitted hv (hH.taken hs) id
    · show AggregateType.StoredSnapshot storages.eventStorage.events id S
      have hS' : storages.snapshotStorage.snapshots id = some S := hS
      rw [hsnap] at hS'
      rw [hlog]
      rcases of_forEach_save hS' with hS' | ⟨hmem, hida⟩
      · exact (h.snapshots id S hS').mono hgrows
      · obtain ⟨hmem, ht⟩ := List.mem_filter.1 hmem
        obtain rfl : id = a.id := Option.some.inj (hida.symm.trans (hH.emitted.ofId S hmem))
        exact hst.storedSnapshot hH.emitted.numbered hmem ht
    · show truthy c.id = true ∧ T.aggregateType.Synced storages.eventStorage.events c ∧ _
      rw [hlog]
      rcases hset hj with hj | hj
      · obtain ⟨hid, hsync, hcommand⟩ := h.instances j c hj
        exact ⟨hid, hsync.mono hgrows, hcommand⟩
      · obtain rfl := Option.some.inj hj
        exact ⟨hH.emitted.id ▸ hid, (hsync.mono hgrows).of_standsAt hH.emitted hst, hH.command⟩

theorem inv_step (h : Inv T s) {x : Action I P} (hC : Covers T s x)
    (hst : step T s x = some s') : Inv T s' := by
  refine ⟨stored_step h hst, ?_⟩
  cases step_cases (fun i a hi => (h.instances i a hi).1) hst with
  | restore | idle => exact h.covers
  | @dropped i command emitted shouldTakeSnapshot storages _ hlog =>
    intro id S hS
    have hlog' : log ({ s with storages }.setInstance i none) = s.log := by
      show storages.eventStorage.events = s.log
      rw [hlog]
    rw [hlog'] at hS
    exact h.covers id S hS
  | @committed i command emitted shouldTakeSnapshot a a' events storages hi hh hH hs hne hc hlog
      hsnap =>
    intro id S hS ht
    rw [show log _ = s.log ++ events from hlog, AggregateType.stored_append hH.emitted.ofId] at hS
    rcases List.mem_append.1 hS with hold | hnew
    · exact h.covers id S hold ht
    · split_ifs at hnew with hida
      · subst hida
        obtain ⟨rfl, hp⟩ := snapshot_payload hH hs hnew ht
        rw [hp]
        exact hC a hi (a', events) hh fun e he => by rw [hc e he]; rfl
      · cases hnew

/-- After a step that commits a snapshot, restoring gives what replaying does only if it covers the
state the constructor makes. -/
theorem covers_of_rehydrates (h : Inv T s) {x : Action I P} (hst : step T s x = some s')
    (hr : ∀ id, Rehydrates T s' id) : Covers T s x := by
  have hs' := stored_step h hst
  cases step_cases (fun i a hi => (h.instances i a hi).1) hst with
  | restore => exact trivial
  | @dropped i command emitted shouldTakeSnapshot storages hconflict =>
    cases shouldTakeSnapshot with
    | false => exact trivial
    | true =>
      intro a hi x hx hnone
      obtain ⟨e, he, hsome⟩ := hconflict a x hi hx
      have hnone' := hnone e he
      rw [Option.isNone_iff_eq_none] at hnone'
      simp [hnone'] at hsome
  | @idle i command emitted shouldTakeSnapshot a a' hi hh hH =>
    cases shouldTakeSnapshot with
    | false => exact trivial
    | true =>
      obtain ⟨new, -, S, hnil, -⟩ := hH.snapshot
      simp at hnil
  | @committed i command emitted shouldTakeSnapshot a a' events storages hi hh hH hs hne hc hlog
      hsnap =>
    cases shouldTakeSnapshot with
    | false => exact trivial
    | true =>
      intro b hb x hx _
      obtain rfl : a = b := Option.some.inj (hi.symm.trans hb)
      obtain rfl : (a', events) = x := Option.some.inj (hh.symm.trans hx)
      obtain ⟨hid, hsync, -⟩ := h.instances i a hi
      have hv := AggregateType.start_version (h.numbered a.id) hsync hH.emitted hne hc
      obtain ⟨new, hfrom, S, rfl, ht, -⟩ := hH.snapshot
      have hmem : S ∈ new ++ [S] := List.mem_append_right _ (List.mem_singleton.2 rfl)
      have hpayload := (snapshot_payload hH hs hmem ht).2
      have hofId : S.aggregateId = some a.id := hH.emitted.ofId S hmem
      -- the snapshot is the one saved, and the last event stored
      have hfilter : (new ++ [S]).filter (isSnapshotEvent ·) = [S] := by
        have hnew : new.filter (isSnapshotEvent ·) = [] :=
          List.filter_eq_nil_iff.2 fun e he => by
            have ht : e.type ≠ SNAPSHOT_EVENT_TYPE := fun ht => hs (ht ▸ hfrom e he)
            simp [isSnapshotEvent, ht]
        have hS : isSnapshotEvent S = true := by
          simp [isSnapshotEvent, isEvent, ht, SNAPSHOT_EVENT_TYPE, truthy]
        rw [List.filter_append, hnew, List.filter_cons_of_pos hS, List.filter_nil, List.nil_append]
      have hsaved : snapshots ({ s with storages }.setInstance i (some a')) a.id = some S := by
        show storages.snapshotStorage.snapshots a.id = some S
        obtain ⟨id, hida, hok⟩ := assertAggregateId_ok (e := S) (by simp [hasAggregateId, hofId, hid])
        obtain rfl : a.id = id := Option.some.inj (hofId.symm.trans hida)
        rw [hsnap, hfilter]
        simp [forEach, saveAggregateSnapshot, hok, Except.map]
      have hstored : stored (log ({ s with storages }.setInstance i (some a'))) a.id
          = stored s.log a.id ++ new ++ [S] := by
        show stored storages.eventStorage.events a.id = _
        rw [hlog, AggregateType.stored_append hH.emitted.ofId, if_pos rfl, List.append_assoc]
      obtain ⟨k, hS⟩ := snapshotAt (hs'.taken a.id) (hs'.snapshots a.id S hsaved)
      have hn := hs'.numbered a.id
      have hk : S.aggregateVersion = some (0 + (stored s.log a.id ++ new).length) := by
        refine hn.getElem? ?_
        rw [hstored, List.getElem?_concat_length]
      rw [hS.version, Nat.zero_add, Option.some.injEq] at hk
      have hlast : (stored (log ({ s with storages }.setInstance i (some a'))) a.id).length
          = k + 1 := by
        rw [hstored, List.length_append, List.length_singleton, hk]
      obtain ⟨b, hb, hb'⟩ := hr a.id
      rw [hsaved] at hb
      have hkeys := hS.keys_of_restores hn hlast hb hb'
      rwa [hpayload] at hkeys

theorem inv_init : Inv T ({} : Rehydration I P) := by
  refine ⟨⟨fun id => trivial, fun id k S hk => ?_, fun id S hS => ?_, fun i a hi => ?_⟩,
    fun id S hS => ?_⟩
  · have hnil : ([] : List (Event I (Properties P)))[k]? = some S := hk
    simp at hnil
  · cases hS
  · cases hi
  · have hnil : S ∈ ([] : List (Event I (Properties P))) := hS
    simp at hnil

/-- All along a run restoring from a snapshot gives what replaying all events does, if and only if
each snapshot that is committed covers the state the constructor makes. -/
theorem rehydrates_iff {l : List (Action I P)} (h : (machine T).run {} l = some s) :
    (∀ l' t, l' <+: l → (machine T).run {} l' = some t → ∀ id, Rehydrates T t id)
      ↔ (machine T).Along (Covers T) {} l :=
  Machine.along_iff (P := fun t => ∀ id, Rehydrates T t id) (fun _ h => h.rehydrates)
    (fun _ _ _ h hC hst => inv_step h hC hst) (fun _ _ _ h hst hr => covers_of_rehydrates h hst hr)
    inv_init h

instance (T : PropertiesAggregate I P) (s : Rehydration I P) : ∀ x, Decidable (Covers T s x)
  | .handle i command emitted true => inferInstanceAs (Decidable (∀ a ∈ s.instances i,
      ∀ x ∈ T.aggregateType.handle a command emitted true,
        (∀ e ∈ x.2, (InMemoryEventStorage.conflict s.log e).isNone) →
          (T.state a.id).keys ⊆ x.1.state.keys))
  | .handle _ _ _ false | .restore _ _ => isTrue trivial

/-- A cart that is open until it is paid, with the last thing put in. -/
def cart : PropertiesAggregate String ℕ where
  state _ := Finmap.singleton "open" 1
  mutate state event :=
    if event.type = "paid" then state.erase "open" else event.payload ∪ state

/-- Something is put in the cart, which is then, perhaps, paid, with a snapshot taken. -/
def carted (paid : List (String × Properties ℕ)) : List (Action String ℕ) := [
  .restore 0 "a",
  .handle 0 { type := "put", aggregateId := some "a", payload := ∅ }
    (("put", Finmap.singleton "item" 7) :: paid) true,
  .restore 1 "a",
  .handle 1 { type := "put", aggregateId := some "a", payload := ∅ }
    [("put", Finmap.singleton "item" 8)] false]

theorem rehydrates_iff_carted : ∃ s, (machine cart).run {} (carted []) = some s
    ∧ Rehydrates cart s "a" := by
  obtain ⟨s, hs⟩ : ∃ s, (machine cart).run {} (carted []) = some s := ⟨_, rfl⟩
  have h := (rehydrates_iff hs).2 (by decide)
  exact ⟨s, hs, h _ s (List.prefix_refl _) hs "a"⟩

/-- The property that was deleted is there again. -/
theorem rehydrates_fails : ¬ ∀ (l : List (Action String ℕ)) s,
    (machine cart).run {} l = some s → ∀ id, Rehydrates cart s id := by
  intro hall
  obtain ⟨s, hs, hopen, hpaid⟩ : ∃ s, (machine cart).run {} (carted [("paid", ∅)]) = some s
      ∧ (s.rehydrate cart "a" (s.snapshots "a")).map (·.state.lookup "open") = some (some 1)
      ∧ (s.rehydrate cart "a" none).map (·.state.lookup "open") = some none :=
    ⟨_, rfl, rfl, rfl⟩
  obtain ⟨a, ha, ha'⟩ := hall _ s hs "a"
  rw [ha] at hopen
  rw [ha'] at hpaid
  exact absurd (hopen.symm.trans hpaid) (by decide)

end Rehydration

end NodeCqrs
