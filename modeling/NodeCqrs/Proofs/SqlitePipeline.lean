import Mathlib.Data.List.Permutation
import NodeCqrs.Proofs.Aggregate
import NodeCqrs.Proofs.EventDispatcher
import NodeCqrs.Proofs.SqliteEventStorage
import NodeCqrs.Sqlite.Pipeline

/-!
# Orders of the processors

The processors of a pipeline with `SqliteEventStorage` take an aggregate's events in each order that
gives events their ids before they are inserted (`dispatch_composes`). In the other orders the
first event inserted has no id yet, and the dispatch is rejected.
-/

namespace NodeCqrs

variable {V : Type}

namespace SqliteEventStorage

variable {s : SqliteEventStorage V} {log events events' : List (Event String V)}
  {e e' : Event String V}

/-- The two have one version, as the concurrency check reads them. -/
def Clash (e' e : Event String V) : Prop :=
  ∃ aggregateId aggregateVersion, e.aggregateId.filter (truthy ·) = some aggregateId
    ∧ e.aggregateVersion = some aggregateVersion
    ∧ e'.aggregateId.map guid = some (guid aggregateId)
    ∧ e'.aggregateVersion = some aggregateVersion

theorem Holds.conflict_eq_none_iff (h : Holds s log) :
    s.conflict e = none ↔ ∀ e' ∈ log, ¬ Clash e' e := by
  unfold conflict
  rcases ha : e.aggregateId.filter (truthy ·) with _ | aggregateId
  · simp [Clash, ha]
  rcases hv : e.aggregateVersion with _ | aggregateVersion
  · simp [Clash, hv]
  · have hany : s.checkConcurrency (guid aggregateId) aggregateVersion
        = log.any fun e' => decide (e'.aggregateId.map guid = some (guid aggregateId))
          && decide (e'.aggregateVersion = some aggregateVersion) :=
      h.any_rows fun _ _ => rfl
    simp [Clash, ha, hv, hany]

theorem exists_of_isOk {ε α : Type} : ∀ {x : Except ε α}, x.isOk = true → ∃ a, x = .ok a
  | .ok a, _ => ⟨a, rfl⟩

/-- An event with a new id and a new version is inserted. -/
theorem Holds.commitEvent_ok (h : Holds s log) (ignore : Bool) (hid : e.id.getD "" ≠ "")
    (hfresh : idOf e ∉ log.map idOf) (horigins : ((e.sagaOrigins.getD []).map Prod.fst).Nodup)
    (hc : s.conflict e = none) : ∃ s', SqliteEventStorage.commitEvent ignore s e = .ok s' := by
  have hids : (log.all fun e' => idOf e' ≠ idOf e) = true :=
    List.all_eq_true.2 fun e' he' => decide_eq_true fun heq =>
      hfresh (heq ▸ List.mem_map_of_mem he')
  have hok : (SqliteEventStorage.commitEvent ignore s e).isOk = true := by
    rw [h.commitEvent_isOk_eq ignore hid horigins, hc, hids, Option.isNone_none, Bool.or_true]
    rfl
  exact exists_of_isOk hok

/-- The events can be inserted one after the other. -/
structure Insertable (log events : List (Event String V)) : Prop where
  id : ∀ e ∈ events, e.id.getD "" ≠ ""
  nodup : ((log ++ events).map idOf).Nodup
  origins : ∀ e ∈ events, ((e.sagaOrigins.getD []).map Prod.fst).Nodup
  fresh : ∀ e ∈ events, ∀ e' ∈ log, ¬ Clash e' e
  apart : events.Pairwise fun e' e => ¬ Clash e' e

namespace Insertable

theorem tail (h : Insertable log (e :: events)) : Insertable (log ++ [e]) events where
  id e' he' := h.id e' (List.mem_cons_of_mem _ he')
  nodup := by simpa using h.nodup
  origins e' he' := h.origins e' (List.mem_cons_of_mem _ he')
  fresh e' he' e'' he'' := by
    rcases List.mem_append.1 he'' with he'' | he''
    · exact h.fresh e' (List.mem_cons_of_mem _ he') e'' he''
    · obtain rfl := List.mem_singleton.1 he''
      exact (List.pairwise_cons.1 h.apart).1 e' he'
  apart := (List.pairwise_cons.1 h.apart).2

theorem sublist (h : Insertable log events) (hs : events'.Sublist events) :
    Insertable log events' where
  id e' he' := h.id e' (hs.subset he')
  nodup := h.nodup.sublist (((List.Sublist.refl log).append hs).map idOf)
  origins e' he' := h.origins e' (hs.subset he')
  fresh e' he' := h.fresh e' (hs.subset he')
  apart := h.apart.sublist hs

end Insertable

theorem Holds.commitEvents_ok (ignore : Bool) : ∀ {events log : List (Event String V)}
    {s : SqliteEventStorage V}, Holds s log → Insertable log events →
    ∃ s', s.commitEvents events ignore = .ok s'
  | [], _, s, _, _ => ⟨s, rfl⟩
  | e :: events, log, s, h, hi => by
    have hfresh : idOf e ∉ log.map idOf := by
      have hnd := hi.nodup
      rw [List.map_append, List.map_cons, List.nodup_middle, List.nodup_cons] at hnd
      exact fun hmem => hnd.1 (List.mem_append_left _ hmem)
    obtain ⟨s', hs'⟩ := h.commitEvent_ok ignore (hi.id e List.mem_cons_self) hfresh
      (hi.origins e List.mem_cons_self)
      (h.conflict_eq_none_iff.2 (hi.fresh e List.mem_cons_self))
    obtain ⟨s'', hs''⟩ := (h.commitEvent hs').commitEvents_ok ignore hi.tail
    refine ⟨s'', ?_⟩
    rw [SqliteEventStorage.commitEvents, List.foldlM_cons, hs']
    exact hs''

theorem process_ok (h : Holds s log) (hi : Insertable log events) (hne : events ≠ [])
    (ignore : Bool) : ∃ s', s.process (EventDispatcher.envelopes events ignore)
        = (s', .ok (EventDispatcher.envelopes events ignore)) ∧ Holds s' (log ++ events) := by
  obtain ⟨s', hs'⟩ := h.commitEvents_ok ignore hi
  obtain ⟨e, rest, rfl⟩ := List.exists_cons_of_ne_nil hne
  refine ⟨s', ?_, h.commitEvents hs'⟩
  simp only [process, EventDispatcher.batchEvents_envelopes]
  simp only [EventDispatcher.envelopes, List.map_cons, hs']

/-- The first event to insert has no id. -/
theorem process_error (events : List (Event String V)) (hid : e.id = none)
    (hc : s.conflict e = none) (ignore : Bool) :
    s.process (EventDispatcher.envelopes (e :: events) ignore)
      = (s, .error (.typeError "event.id must be a non-empty String")) := by
  have hconflict : (if ignore then none else s.conflict e) = none := by
    cases ignore with
    | true => rfl
    | false => exact hc
  have hcommit : s.commitEvents (e :: events) ignore
      = .error (.typeError "event.id must be a non-empty String") := by
    simp only [commitEvents, List.foldlM_cons, commitEvent, hconflict, hid]
    rfl
  simp only [process, EventDispatcher.batchEvents_envelopes]
  simp only [EventDispatcher.envelopes, List.map_cons, hcommit]

end SqliteEventStorage

namespace AggregateType

variable {σ : Type} [Truthy V] {T : AggregateType String V σ} {a a' a'' : Aggregate String V σ}

/-- The events added are made for the command in hand, without ids. -/
structure Made (a a' : Aggregate String V σ) : Prop where
  command : a'.command = a.command
  changes : ∃ new, a'.changes = a.changes ++ new
    ∧ ∀ e ∈ new, e.id = none ∧ e.sagaOrigins = a.command.bind (·.sagaOrigins)

omit [Truthy V] in
theorem Made.refl (a : Aggregate String V σ) : Made a a := ⟨rfl, [], by simp⟩

omit [Truthy V] in
theorem Made.trans (h : Made a a') (h' : Made a' a'') : Made a a'' := by
  obtain ⟨new, hnew, hmade⟩ := h.changes
  obtain ⟨new', hnew', hmade'⟩ := h'.changes
  refine ⟨h'.command.trans h.command, new ++ new', by rw [hnew', hnew, List.append_assoc], ?_⟩
  rw [h.command] at hmade'
  exact List.forall_mem_append.2 ⟨hmade, hmade'⟩

theorem made_emit {type : String} {payload : V} (h : T.emit a type payload = (a', true)) :
    Made a a' := by
  simp only [emit] at h
  split_ifs at h
  · simp at h
  · split at h
    · rename_i b hm
      have hb : b.changes = a.changes := congrArg (·.1.changes) hm.symm
      have hc : b.command = a.command := congrArg (·.1.command) hm.symm
      obtain rfl := (Prod.mk.inj h).1
      exact ⟨hc, [a.makeEvent type payload], by rw [← hb], by simp [Aggregate.makeEvent]⟩
    · simp at h

theorem made_emitAll : ∀ {emitted : List (String × V)} {a a' : Aggregate String V σ},
    T.emitAll a emitted = (a', true) → Made a a'
  | [], a, a', h => by
    obtain rfl : a = a' := by simpa [emitAll] using h
    exact .refl a
  | (type, payload) :: emitted, a, a', h => by
    rcases he : T.emit a type payload with ⟨b, _ | _⟩
    · simp [emitAll, he] at h
    · have hrest : T.emitAll b emitted = (a', true) := by simpa [emitAll, he] using h
      exact (made_emit he).trans (made_emitAll hrest)

theorem made_getUncommittedEvents {shouldTakeSnapshot : Bool} {offset : ℕ}
    {events : List (Event String V)}
    (h : T.getUncommittedEvents a shouldTakeSnapshot offset = (a', some events)) :
    Made a a' ∧ events = a'.changes.drop offset := by
  simp only [getUncommittedEvents] at h
  split at h
  · rename_i b hs
    obtain ⟨rfl, he⟩ := Prod.mk.inj h
    refine ⟨?_, (Option.some.inj he).symm⟩
    split_ifs at hs
    · simp only [takeSnapshot] at hs
      split at hs
      · simp at hs
      · split at hs
        · rename_i c hc
          obtain rfl := (Prod.mk.inj hs).1
          exact ⟨(made_emit hc).command, (made_emit hc).changes⟩
        · simp at hs
    · obtain rfl := (Prod.mk.inj hs).1
      exact .refl a
  · simp at h

/-- The events are those of a command that an instance handles. -/
def EmitsBatch (T : AggregateType String V σ) (events : List (Event String V)) : Prop :=
  ∃ (a a' : Aggregate String V σ) (command : Command String V) (emitted : List (String × V))
    (shouldTakeSnapshot : Bool), a.id ≠ ""
      ∧ ((command.sagaOrigins.getD []).map Prod.fst).Nodup
      ∧ T.handle a command emitted shouldTakeSnapshot = some (a', events)

/-- What the processors find in the events of a command. -/
structure EmittedBatch (events : List (Event String V)) : Prop where
  eventSet : isEventSet events = true
  id : ∀ e ∈ events, e.id = none
  ofId : ∃ aggregateId, aggregateId ≠ "" ∧ ∀ e ∈ events, e.aggregateId = some aggregateId
  origins : ∀ e ∈ events, ((e.sagaOrigins.getD []).map Prod.fst).Nodup
  versions : events.Pairwise fun e' e => e'.aggregateVersion ≠ e.aggregateVersion

omit [Truthy V] in
theorem EmittedBatch.sublist {events events' : List (Event String V)} (h : EmittedBatch events)
    (hs : events'.Sublist events) : EmittedBatch events' where
  eventSet := List.all_eq_true.2 fun e he => List.all_eq_true.1 h.eventSet e (hs.subset he)
  id e he := h.id e (hs.subset he)
  ofId := by
    obtain ⟨aggregateId, hne, hall⟩ := h.ofId
    exact ⟨aggregateId, hne, fun e he => hall e (hs.subset he)⟩
  origins e he := h.origins e (hs.subset he)
  versions := h.versions.sublist hs

theorem EmitsBatch.emittedBatch {events : List (Event String V)} (h : T.EmitsBatch events) :
    EmittedBatch events := by
  obtain ⟨a, a', command, emitted, shouldTakeSnapshot, hid, horigins, h⟩ := h
  have hh := handle_handled h
  have hmade : ∀ e ∈ events, e.id = none ∧ e.sagaOrigins = command.sagaOrigins := by
    obtain ⟨b, b', he, hu, -⟩ := handle_parts h
    obtain ⟨hm, rfl⟩ := made_getUncommittedEvents hu
    obtain ⟨new, hnew, hall⟩ := ((made_emitAll he).trans hm).changes
    rw [hnew, List.drop_left]
    simpa using hall
  refine ⟨?_, fun e he => (hmade e he).1, ⟨a.id, hid, hh.emitted.ofId⟩, fun e he => ?_,
    hh.emitted.numbered.pairwise_ne⟩
  · simpa [isEventSet, isEvent] using hh.types
  · rw [(hmade e he).2]
    exact horigins

end AggregateType

namespace InMemorySnapshotStorage

variable [Truthy V] {aggregateId : String} {events : List (Event String V)}

omit [Truthy V] in
theorem assertAggregateId_eq (hne : aggregateId ≠ "") {e : Event String V}
    (hid : e.aggregateId = some aggregateId) : assertAggregateId e = .ok aggregateId := by
  simp [assertAggregateId, hid, Option.filter_some, truthy, hne]

omit [Truthy V] in
/-- The last of an aggregate's snapshots is the one kept. -/
theorem forEach_save_last (hne : aggregateId ≠ "") : ∀ {events : List (Event String V)}
    {s : InMemorySnapshotStorage String V}, (∀ e ∈ events, e.aggregateId = some aggregateId) →
    ∃ s', forEach saveAggregateSnapshot s events = (s', none)
      ∧ s'.snapshots aggregateId = events.getLast?.or (s.snapshots aggregateId)
  | [], s, _ => ⟨s, rfl, rfl⟩
  | e :: events, s, hid => by
    have hsave : saveAggregateSnapshot s e
        = .ok { s with snapshots := Function.update s.snapshots aggregateId (some e) } := by
      simp [saveAggregateSnapshot, assertAggregateId_eq hne (hid e List.mem_cons_self), Except.map]
    obtain ⟨s', hs', hlast⟩ := forEach_save_last hne
      (s := { s with snapshots := Function.update s.snapshots aggregateId (some e) })
      fun e' he' => hid e' (List.mem_cons_of_mem e he')
    refine ⟨s', by simp only [forEach, hsave, hs'], ?_⟩
    rw [hlast, List.getLast?_cons]
    simp only [Function.update_self]
    cases events.getLast? <;> rfl

omit [Truthy V] in
theorem forEach_delete_ok (hne : aggregateId ≠ "") : ∀ {events : List (Event String V)}
    {s : InMemorySnapshotStorage String V}, (∀ e ∈ events, e.aggregateId = some aggregateId) →
    (forEach deleteAggregateSnapshot s events).2 = none
  | [], _, _ => rfl
  | e :: events, s, hid => by
    have hdelete : deleteAggregateSnapshot s e
        = .ok { s with snapshots := Function.update s.snapshots aggregateId none } := by
      simp [deleteAggregateSnapshot, assertAggregateId_eq hne (hid e List.mem_cons_self),
        Except.map]
    simp only [forEach, hdelete]
    exact forEach_delete_ok hne fun e' he' => hid e' (List.mem_cons_of_mem e he')

theorem withoutSnapshots_envelopes (events : List (Event String V)) (ignore : Bool) :
    withoutSnapshots (EventDispatcher.envelopes events ignore)
      = EventDispatcher.envelopes (events.filter fun e => !isSnapshotEvent e) ignore := by
  simp only [withoutSnapshots, EventDispatcher.envelopes, List.filter_map]
  rfl

theorem process_envelopes (hne : aggregateId ≠ "")
    (hid : ∀ e ∈ events, e.aggregateId = some aggregateId) (s : InMemorySnapshotStorage String V)
    (ignore : Bool) : ∃ s', s.process (EventDispatcher.envelopes events ignore)
        = (s', .ok (EventDispatcher.envelopes (events.filter fun e => !isSnapshotEvent e) ignore))
      ∧ s'.snapshots aggregateId
        = (events.filter (isSnapshotEvent ·)).getLast?.or (s.snapshots aggregateId) := by
  have hsnap : ∀ e ∈ events.filter (isSnapshotEvent ·), e.aggregateId = some aggregateId :=
    fun e he => hid e (List.mem_filter.1 he).1
  obtain ⟨s', hs', hlast⟩ := forEach_save_last hne (s := s) hsnap
  refine ⟨s', ?_, hlast⟩
  rw [process, snapshotEvents, EventDispatcher.filterMap_envelopes, hs',
    withoutSnapshots_envelopes]

theorem revert_envelopes (hne : aggregateId ≠ "")
    (hid : ∀ e ∈ events, e.aggregateId = some aggregateId) (s : InMemorySnapshotStorage String V)
    (ignore : Bool) : (s.revert (EventDispatcher.envelopes events ignore)).2 = none := by
  rw [revert, snapshotEvents, EventDispatcher.filterMap_envelopes]
  exact forEach_delete_ok hne fun e he => hid e (List.mem_filter.1 he).1

end InMemorySnapshotStorage

namespace PipelineStage

open EventDispatcher (envelopes dispatch)
open SqliteEventStorage (Holds Insertable Clash idOf)
open AggregateType (EmittedBatch)

variable {newId : ℕ → String} {n : ℕ} {log events events' : List (Event String V)}

/-- The identifiers the provider gives next are not empty, and none is there twice or stored. -/
structure FreshIds (newId : ℕ → String) (n k : ℕ) (log : List (Event String V)) : Prop where
  ne_empty : ∀ i ∈ List.range' n k, newId i ≠ ""
  nodup : (log.map idOf ++ (List.range' n k).map fun i => guid (newId i)).Nodup

theorem FreshIds.mono {k k' : ℕ} (h : FreshIds newId n k log) (hk : k' ≤ k) :
    FreshIds newId n k' log := by
  have hs : (List.range' n k').Sublist (List.range' n k) := List.range'_sublist_right.2 hk
  exact ⟨fun i hi => h.ne_empty i (hs.subset hi),
    h.nodup.sublist ((List.Sublist.refl _).append (hs.map _))⟩

/-- The events with the identifiers given from the `n`th on. -/
def withIds (newId : ℕ → String) (n : ℕ) (events : List (Event String V)) :
    List (Event String V) :=
  (events.zipIdx n).map fun p => { p.1 with id := some (newId p.2) }

theorem map_forgetId (h : ∀ e ∈ events, e.id = none) : events.map forgetId = events := by
  refine (List.map_congr_left fun e he => ?_).trans (List.map_id _)
  rw [forgetId, ← h e he]
  rfl

theorem withIds_forgetId (newId : ℕ → String) (n : ℕ) (h : ∀ e ∈ events, e.id = none) :
    (withIds newId n events).map forgetId = events := by
  have hforget : (withIds newId n events).map forgetId
      = ((events.zipIdx n).map Prod.fst).map forgetId := by
    rw [withIds, List.map_map, List.map_map]
    rfl
  rw [hforget, List.zipIdx_map_fst, map_forgetId h]

theorem withIds_idOf : (withIds newId n events).map idOf
    = (List.range' n events.length).map fun i => guid (newId i) := by
  rw [← List.zipIdx_map_snd, List.map_map, withIds, List.map_map]
  rfl

theorem augment_envelopes (ignore : Bool) : ∀ {events : List (Event String V)} {n : ℕ},
    (∀ e ∈ events, e.id = none) → augment newId n (envelopes events ignore)
      = (n + events.length, envelopes (withIds newId n events) ignore)
  | [], n, _ => rfl
  | e :: events, n, h => by
    have ih := augment_envelopes ignore (n := n + 1) fun e' he' => h e' (List.mem_cons_of_mem e he')
    simp only [envelopes, List.map_cons, augment, h e List.mem_cons_self] at ih ⊢
    rw [if_neg (by simp), ih]
    simp [withIds, Nat.add_assoc, Nat.add_comm 1]

theorem filter_forgetId {p : Event String V → Bool} (hp : ∀ e, p (forgetId e) = p e)
    (h : events'.map forgetId = events) : (events'.filter p).map forgetId = events.filter p := by
  have hcomp : p = p ∘ forgetId := funext fun e => (hp e).symm
  conv_lhs => rw [hcomp, ← List.filter_map, h]

theorem insertable_withIds (hb : EmittedBatch events)
    (hids : FreshIds newId n events.length log)
    (hfresh : ∀ e ∈ events, ∀ e' ∈ log, ¬ Clash e' e) :
    Insertable log (withIds newId n events) := by
  have hmem : ∀ e ∈ withIds newId n events, ∃ e' ∈ events, ∃ i ∈ List.range' n events.length,
      e = { e' with id := some (newId i) } := by
    intro e he
    obtain ⟨⟨e', i⟩, hp, rfl⟩ := List.mem_map.1 he
    refine ⟨e', List.fst_mem_of_mem_zipIdx hp, i, ?_, rfl⟩
    rw [← List.zipIdx_map_snd n events]
    exact List.mem_map_of_mem (f := Prod.snd) hp
  refine ⟨fun e he => ?_, ?_, fun e he => ?_, fun e he => ?_, ?_⟩
  · obtain ⟨e', -, i, hi, rfl⟩ := hmem e he
    exact hids.ne_empty i hi
  · rw [List.map_append, withIds_idOf]
    exact hids.nodup
  · obtain ⟨e', he', i, -, rfl⟩ := hmem e he
    exact hb.origins e' he'
  · obtain ⟨e', he', i, -, rfl⟩ := hmem e he
    exact hfresh e' he'
  · have hversions : (events.zipIdx n).Pairwise fun p q =>
        p.1.aggregateVersion ≠ q.1.aggregateVersion := by
      rw [← List.pairwise_map (f := Prod.fst)
        (R := fun e' e : Event String V => e'.aggregateVersion ≠ e.aggregateVersion),
        List.zipIdx_map_fst]
      exact hb.versions
    refine List.pairwise_map.2 (hversions.imp ?_)
    rintro p q hne ⟨-, aggregateVersion, -, hq, -, hp⟩
    exact hne (hp.trans hq.symm)

variable [Truthy V] {s s' : PipelineStorages V} {aggregateId : String}

/-- The dispatch of the events has stored each domain event once, after those of the log, and the
last of their snapshots can be got. -/
structure Composed (log events : List (Event String V)) (s' : PipelineStorages V) : Prop where
  stored : ∃ new, Holds s'.eventStorage (log ++ new)
    ∧ (new.filter fun e => !isSnapshotEvent e).map forgetId
      = events.filter fun e => !isSnapshotEvent e
  snapshot : ∀ S ∈ (events.filter (isSnapshotEvent ·)).getLast?, ∀ aggregateId ∈ S.aggregateId,
    (s'.snapshotStorage.getAggregateSnapshot aggregateId).map forgetId = some S

/-- The dispatch through the processors in the order resolves with the events stored. -/
def Composes (newId : ℕ → String) (order : List PipelineStage) (s : PipelineStorages V)
    (log events : List (Event String V)) (ignoreConcurrencyError : Bool) : Prop :=
  ∃ s' published, dispatch (order.map (processor newId)) s events ignoreConcurrencyError
    = (s', .ok published) ∧ Composed log events s'

/-- The dispatch is rejected for want of an id, and no event is stored. -/
def Rejects (newId : ℕ → String) (order : List PipelineStage) (s : PipelineStorages V)
    (events : List (Event String V)) (ignoreConcurrencyError : Bool) : Prop :=
  ∃ s', dispatch (order.map (processor newId)) s events ignoreConcurrencyError
      = (s', .error (.typeError "event.id must be a non-empty String"))
    ∧ s'.eventStorage = s.eventStorage

/-- The one processor stands before the other. -/
def Before (order : List PipelineStage) (stage stage' : PipelineStage) : Prop :=
  order.idxOf stage < order.idxOf stage'

instance (order : List PipelineStage) (stage stage' : PipelineStage) :
    Decidable (Before order stage stage') :=
  inferInstanceAs (Decidable (_ < _))

section Processors

theorem process_eventIdAugmentor (newId : ℕ → String) (s : PipelineStorages V)
    (h : ∀ e ∈ events, e.id = none) (ignore : Bool) :
    ∃ s', (processor newId eventIdAugmentor).process s (envelopes events ignore)
        = (s', .ok (envelopes (withIds newId s.identifiers events) ignore))
      ∧ s'.eventStorage = s.eventStorage ∧ s'.snapshotStorage = s.snapshotStorage :=
  ⟨{ s with identifiers := s.identifiers + events.length },
    by simp only [processor, augment_envelopes ignore h], rfl, rfl⟩

theorem process_inMemorySnapshotStorage (newId : ℕ → String) (s : PipelineStorages V)
    (hne : aggregateId ≠ "") (hid : ∀ e ∈ events, e.aggregateId = some aggregateId) (ignore : Bool) :
    ∃ s', (processor newId inMemorySnapshotStorage).process s (envelopes events ignore)
        = (s', .ok (envelopes (events.filter fun e => !isSnapshotEvent e) ignore))
      ∧ s'.identifiers = s.identifiers ∧ s'.eventStorage = s.eventStorage
      ∧ ∀ S ∈ (events.filter (isSnapshotEvent ·)).getLast?,
        s'.snapshotStorage.snapshots aggregateId = some S := by
  obtain ⟨snapshotStorage, hp, hlast⟩ :=
    InMemorySnapshotStorage.process_envelopes hne hid s.snapshotStorage ignore
  refine ⟨{ s with snapshotStorage }, by simp only [processor, hp], rfl, rfl, fun S hS => ?_⟩
  rw [hlast, Option.mem_def.1 hS]
  rfl

theorem process_sqliteEventStorage (newId : ℕ → String) (h : Holds s.eventStorage log)
    (hi : Insertable log events) (hne : events ≠ []) (ignore : Bool) :
    ∃ s', (processor newId sqliteEventStorage).process s (envelopes events ignore)
        = (s', .ok (envelopes events ignore))
      ∧ s'.snapshotStorage = s.snapshotStorage ∧ Holds s'.eventStorage (log ++ events) := by
  obtain ⟨eventStorage, hp, hh⟩ := SqliteEventStorage.process_ok h hi hne ignore
  exact ⟨{ s with eventStorage }, by simp only [processor, hp], rfl, hh⟩

theorem processAll_cons (order : List PipelineStage) {stage : PipelineStage}
    {data data' : List (Envelope String V)}
    (h : (processor newId stage).process s data = (s', .ok data')) :
    EventDispatchPipeline.processAll ((stage :: order).map (processor newId)) s data
      = EventDispatchPipeline.processAll (order.map (processor newId)) s' data' := by
  rw [List.map_cons, EventDispatchPipeline.processAll, h]

/-- Reverting a batch meets no error and leaves the stored events. -/
theorem revert_envelopes (newId : ℕ → String) (hne : aggregateId ≠ "")
    (hid : ∀ e ∈ events, e.aggregateId = some aggregateId) (ignore : Bool) :
    ∀ (order : List PipelineStage) (s : PipelineStorages V), ∃ s',
      EventDispatchPipeline.revert (order.map (processor newId)) s (envelopes events ignore)
        = (s', none) ∧ s'.eventStorage = s.eventStorage
  | [], s => ⟨s, rfl, rfl⟩
  | eventIdAugmentor :: order, s => revert_envelopes newId hne hid ignore order s
  | sqliteEventStorage :: order, s => revert_envelopes newId hne hid ignore order s
  | inMemorySnapshotStorage :: order, s => by
    have hrevert := InMemorySnapshotStorage.revert_envelopes hne hid s.snapshotStorage ignore
    obtain ⟨s', hs', he⟩ := revert_envelopes newId hne hid ignore order
      { s with snapshotStorage := (s.snapshotStorage.revert (envelopes events ignore)).1 }
    refine ⟨s', ?_, he⟩
    simp only [List.map_cons, EventDispatchPipeline.revert, processor, hrevert]
    exact hs'

end Processors

/-- An order in which the first event inserted has no id. -/
theorem rejects_of_processAll (s' : PipelineStorages V) {order : List PipelineStage} {ignore : Bool}
    (hv : isEventSet events = true ∧ events ≠ []) (hne : aggregateId ≠ "")
    (hid : ∀ e ∈ events', e.aggregateId = some aggregateId)
    (h : EventDispatchPipeline.processAll (order.map (processor newId)) s (envelopes events ignore)
      = (s', envelopes events' ignore,
          some (.typeError "event.id must be a non-empty String")))
    (he : s'.eventStorage = s.eventStorage) : Rejects newId order s events ignore := by
  obtain ⟨s'', hr, he'⟩ := revert_envelopes newId hne hid ignore order s'
  refine ⟨s'', ?_, he'.trans he⟩
  unfold dispatch
  rw [if_neg (by simp [hv.1, hv.2]), h]
  simp only [hr]

theorem composed_of {new : List (Event String V)}
    (hid : ∀ e ∈ events, e.aggregateId = some aggregateId)
    (hh : Holds s'.eventStorage (log ++ new))
    (hnew : (new.filter fun e => !isSnapshotEvent e).map forgetId
      = events.filter fun e => !isSnapshotEvent e)
    (hf : events'.map forgetId = events)
    (hlast : ∀ S ∈ (events'.filter (isSnapshotEvent ·)).getLast?,
      s'.snapshotStorage.snapshots aggregateId = some S) : Composed log events s' := by
  refine ⟨⟨new, hh, hnew⟩, fun S hS aggregateId' haid => ?_⟩
  have hsnap : (events'.filter (isSnapshotEvent ·)).map forgetId
      = events.filter (isSnapshotEvent ·) := filter_forgetId (fun _ => rfl) hf
  rw [← hsnap, List.getLast?_map] at hS
  obtain ⟨S', hS', rfl⟩ := Option.map_eq_some_iff.1 hS
  have hmem : forgetId S' ∈ events := by
    rw [← hf]
    exact List.mem_map_of_mem (List.mem_filter.1 (List.mem_of_getLast? hS')).1
  obtain rfl : aggregateId' = aggregateId :=
    Option.some.inj ((Option.mem_def.1 haid).symm.trans (hid _ hmem))
  rw [InMemorySnapshotStorage.getAggregateSnapshot, hlast S' hS']
  rfl

section Orders

variable {ignore : Bool}

omit [Truthy V] in
theorem aggregateId_withIds (newId : ℕ → String) (n : ℕ) (h : ∀ e ∈ events, e.id = none)
    (hid : ∀ e ∈ events, e.aggregateId = some aggregateId) :
    ∀ e ∈ withIds newId n events, e.aggregateId = some aggregateId := by
  intro e he
  have hmem : forgetId e ∈ events := by
    rw [← withIds_forgetId newId n h]
    exact List.mem_map_of_mem he
  exact hid (forgetId e) hmem

/-- The identifiers, then the snapshots, then the events. -/
theorem composes_augment_snapshots_events (hb : EmittedBatch events) (hne : events ≠ [])
    (h : Holds s.eventStorage log) (hids : FreshIds newId s.identifiers events.length log)
    (hfresh : ∀ e ∈ events, ∀ e' ∈ log, ¬ Clash e' e)
    (hdom : (events.filter fun e => !isSnapshotEvent e) ≠ []) :
    Composes newId [eventIdAugmentor, inMemorySnapshotStorage, sqliteEventStorage] s log events
      ignore := by
  obtain ⟨aggregateId, haid, hid⟩ := hb.ofId
  have hf := withIds_forgetId newId s.identifiers hb.id
  have hdomain := filter_forgetId (p := fun e => !isSnapshotEvent e) (fun _ => rfl) hf
  obtain ⟨s₁, hA, he₁, -⟩ := process_eventIdAugmentor newId s hb.id ignore
  obtain ⟨s₂, hS, -, he₂, hlast⟩ := process_inMemorySnapshotStorage newId s₁ haid
    (aggregateId_withIds newId s.identifiers hb.id hid) ignore
  obtain ⟨s₃, hQ, hsnap, hh⟩ := process_sqliteEventStorage newId (s := s₂)
    (by rwa [he₂, he₁]) ((insertable_withIds hb hids hfresh).sublist List.filter_sublist)
    (fun hnil => hdom (by rw [← hdomain, hnil]; rfl)) ignore
  obtain ⟨published, hd⟩ := EventDispatcher.dispatch_ok ⟨hb.eventSet, hne⟩
    ((processAll_cons _ hA).trans ((processAll_cons _ hS).trans
      (processAll_cons [] hQ)))
  refine ⟨s₃, published, hd, composed_of hid hh ?_ hf fun S hS => hsnap ▸ hlast S hS⟩
  rw [List.filter_filter]
  simpa using hdomain

/-- The identifiers, then the events, then the snapshots. -/
theorem composes_augment_events_snapshots (hb : EmittedBatch events) (hne : events ≠ [])
    (h : Holds s.eventStorage log) (hids : FreshIds newId s.identifiers events.length log)
    (hfresh : ∀ e ∈ events, ∀ e' ∈ log, ¬ Clash e' e) :
    Composes newId [eventIdAugmentor, sqliteEventStorage, inMemorySnapshotStorage] s log events
      ignore := by
  obtain ⟨aggregateId, haid, hid⟩ := hb.ofId
  have hf := withIds_forgetId newId s.identifiers hb.id
  obtain ⟨s₁, hA, he₁, -⟩ := process_eventIdAugmentor newId s hb.id ignore
  obtain ⟨s₂, hQ, -, hh⟩ := process_sqliteEventStorage newId (s := s₁)
    (by rwa [he₁]) (insertable_withIds hb hids hfresh)
    (fun hnil => hne (by rw [← hf, hnil]; rfl)) ignore
  obtain ⟨s₃, hS, -, he₃, hlast⟩ := process_inMemorySnapshotStorage newId s₂ haid
    (aggregateId_withIds newId s.identifiers hb.id hid) ignore
  obtain ⟨published, hd⟩ := EventDispatcher.dispatch_ok ⟨hb.eventSet, hne⟩
    ((processAll_cons _ hA).trans ((processAll_cons _ hQ).trans
      (processAll_cons [] hS)))
  exact ⟨s₃, published, hd, composed_of hid (by rwa [he₃])
    (filter_forgetId (fun _ => rfl) hf) hf hlast⟩

/-- The snapshots, then the identifiers, then the events. -/
theorem composes_snapshots_augment_events (hb : EmittedBatch events) (hne : events ≠ [])
    (h : Holds s.eventStorage log) (hids : FreshIds newId s.identifiers events.length log)
    (hfresh : ∀ e ∈ events, ∀ e' ∈ log, ¬ Clash e' e)
    (hdom : (events.filter fun e => !isSnapshotEvent e) ≠ []) :
    Composes newId [inMemorySnapshotStorage, eventIdAugmentor, sqliteEventStorage] s log events
      ignore := by
  obtain ⟨aggregateId, haid, hid⟩ := hb.ofId
  have hbd := hb.sublist (List.filter_sublist (p := fun e => !isSnapshotEvent e))
  obtain ⟨s₁, hS, hi₁, he₁, hlast⟩ := process_inMemorySnapshotStorage newId s haid hid
    ignore
  obtain ⟨s₂, hA, he₂, hs₂⟩ := process_eventIdAugmentor newId s₁ hbd.id ignore
  have hf := withIds_forgetId newId s₁.identifiers hbd.id
  have hids' : FreshIds newId s₁.identifiers
      (events.filter fun e => !isSnapshotEvent e).length log := by
    rw [hi₁]
    exact hids.mono (List.length_filter_le _ _)
  obtain ⟨s₃, hQ, hs₃, hh⟩ := process_sqliteEventStorage newId (s := s₂)
    (by rwa [he₂, he₁])
    (insertable_withIds hbd hids' fun e he => hfresh e (List.mem_filter.1 he).1)
    (fun hnil => hdom (by rw [← hf, hnil]; rfl)) ignore
  obtain ⟨published, hd⟩ := EventDispatcher.dispatch_ok ⟨hb.eventSet, hne⟩
    ((processAll_cons _ hS).trans ((processAll_cons _ hA).trans
      (processAll_cons [] hQ)))
  refine ⟨s₃, published, hd, composed_of hid hh ?_ (map_forgetId hb.id) fun S hS => ?_⟩
  · rw [filter_forgetId (fun _ => rfl) hf, List.filter_filter]
    simp
  · rw [hs₃, hs₂]
    exact hlast S hS

/-- The events before all else. -/
theorem rejects_events_first {order : List PipelineStage} (hb : EmittedBatch events)
    (hne : events ≠ []) (hc : ∀ e ∈ events, s.eventStorage.conflict e = none) :
    Rejects newId (sqliteEventStorage :: order) s events ignore := by
  obtain ⟨aggregateId, haid, hid⟩ := hb.ofId
  obtain ⟨e, rest, rfl⟩ := List.exists_cons_of_ne_nil hne
  have hp := SqliteEventStorage.process_error rest (hb.id e List.mem_cons_self)
    (hc e List.mem_cons_self) ignore
  refine rejects_of_processAll s ⟨hb.eventSet, hne⟩ haid hid ?_ rfl
  simp only [List.map_cons, EventDispatchPipeline.processAll, processor, hp]

/-- The snapshots, then the events. -/
theorem rejects_snapshots_events {order : List PipelineStage} (hb : EmittedBatch events)
    (hne : events ≠ []) (hc : ∀ e ∈ events, s.eventStorage.conflict e = none)
    (hdom : (events.filter fun e => !isSnapshotEvent e) ≠ []) :
    Rejects newId (inMemorySnapshotStorage :: sqliteEventStorage :: order) s events ignore := by
  obtain ⟨aggregateId, haid, hid⟩ := hb.ofId
  obtain ⟨s₁, hS, -, he₁, -⟩ := process_inMemorySnapshotStorage newId s haid hid ignore
  obtain ⟨e, rest, hrest⟩ := List.exists_cons_of_ne_nil hdom
  have he : e ∈ events := (List.mem_filter.1 (hrest ▸ List.mem_cons_self)).1
  have hp := SqliteEventStorage.process_error (s := s₁.eventStorage) rest (hb.id e he)
    (he₁ ▸ hc e he) ignore
  have hid' : ∀ e' ∈ e :: rest, e'.aggregateId = some aggregateId :=
    fun e' he' => hid e' (List.mem_filter.1 (hrest ▸ he')).1
  refine rejects_of_processAll s₁ ⟨hb.eventSet, hne⟩ haid hid' ?_ he₁
  rw [processAll_cons _ hS, hrest]
  simp only [List.map_cons, EventDispatchPipeline.processAll, processor, hp]

end Orders

/-- The processors take an aggregate's events in any order in which the augmentor stands before the
event storage, unless the snapshot storage leaves the event storage no event. With the augmentor
behind the event storage they are rejected. -/
theorem dispatch_composes {σ : Type} {T : AggregateType String V σ} {order : List PipelineStage}
    {ignore : Bool}
    (ho : order.Perm [eventIdAugmentor, inMemorySnapshotStorage, sqliteEventStorage])
    (he : T.EmitsBatch events) (hne : events ≠ []) (h : Holds s.eventStorage log)
    (hids : FreshIds newId s.identifiers events.length log)
    (hc : ∀ e ∈ events, s.eventStorage.conflict e = none)
    (hreach : Before order sqliteEventStorage inMemorySnapshotStorage
      ∨ ∃ e ∈ events, isSnapshotEvent e = false) :
    (Before order eventIdAugmentor sqliteEventStorage → Composes newId order s log events ignore)
    ∧ (Before order sqliteEventStorage eventIdAugmentor → Rejects newId order s events ignore) := by
  have hb := he.emittedBatch
  have hfresh := fun e he => h.conflict_eq_none_iff.1 (hc e he)
  have hdom : ¬ Before order sqliteEventStorage inMemorySnapshotStorage →
      (events.filter fun e => !isSnapshotEvent e) ≠ [] := by
    intro hbefore
    obtain ⟨e, he, hdomain⟩ := hreach.resolve_left hbefore
    exact List.ne_nil_of_mem (List.mem_filter.2 ⟨he, by rw [hdomain]; rfl⟩)
  have horders := List.mem_permutations'.2 ho
  simp only [List.permutations', List.permutations'Aux, List.flatMap_cons, List.flatMap_nil,
    List.map_cons, List.map_nil, List.append_nil, List.cons_append, List.nil_append,
    List.mem_cons, List.not_mem_nil, or_false] at horders
  rcases horders with rfl | rfl | rfl | rfl | rfl | rfl
  · exact ⟨fun _ => composes_augment_snapshots_events hb hne h hids hfresh (hdom (by decide)),
      fun hbefore => absurd hbefore (by decide)⟩
  · exact ⟨fun _ => composes_snapshots_augment_events hb hne h hids hfresh (hdom (by decide)),
      fun hbefore => absurd hbefore (by decide)⟩
  · exact ⟨fun hbefore => absurd hbefore (by decide),
      fun _ => rejects_snapshots_events hb hne hc (hdom (by decide))⟩
  · exact ⟨fun _ => composes_augment_events_snapshots hb hne h hids hfresh,
      fun hbefore => absurd hbefore (by decide)⟩
  · exact ⟨fun hbefore => absurd hbefore (by decide), fun _ => rejects_events_first hb hne hc⟩
  · exact ⟨fun hbefore => absurd hbefore (by decide), fun _ => rejects_events_first hb hne hc⟩

section Runs

open SqliteEventStorage (Stored)

/-- An aggregate that counts its events, with snapshots of the number. -/
def counting : AggregateType String ℕ ℕ where
  state := fun _ => 0
  handler := fun state _ => (state + 1, true)
  makeSnapshot := fun state => some state
  restoreSnapshot := fun _ payload => some payload

/-- Identifiers as `randomUUID` gives them. -/
def uuid : ℕ → String
  | 0 => "a0000000000000000000000000000001"
  | _ => "a0000000000000000000000000000002"

/-- A user is renamed, and a snapshot is taken. -/
def renamedBatch : List (Event String ℕ) :=
  [{ type := "renamed", aggregateId := some "user", aggregateVersion := some 0, payload := 7 },
    { type := "snapshot", aggregateId := some "user", aggregateVersion := some 1, payload := 1 }]

theorem emits_renamedBatch : counting.EmitsBatch renamedBatch :=
  ⟨counting.create "user", _, { type := "rename", payload := 0 }, [("renamed", 7)], true,
    by decide, by decide, rfl⟩

theorem freshIds_uuid : FreshIds uuid 0 2 ([] : List (Event String ℕ)) where
  ne_empty := by decide
  nodup := by decide

/-- A renamed user, with a snapshot, through the processors in their usual order. -/
theorem renamedBatch_composes : Composes uuid
    [eventIdAugmentor, inMemorySnapshotStorage, sqliteEventStorage] {} [] renamedBatch
      false :=
  (dispatch_composes (List.Perm.refl _) emits_renamedBatch (by decide) Stored.empty.holds
    freshIds_uuid (fun e _ => Stored.empty.holds.conflict_eq_none_iff.2 (by simp))
    (.inr ⟨_, List.mem_cons_self, by decide⟩)).1 (by decide)

/-- The event storage before the augmentor. -/
theorem dispatch_composes_fails :
    ¬ ∀ (newId : ℕ → String) (order : List PipelineStage) (T : AggregateType String ℕ ℕ)
      (events : List (Event String ℕ)) (s : PipelineStorages ℕ) (log : List (Event String ℕ))
      (ignore : Bool),
      order.Perm [eventIdAugmentor, inMemorySnapshotStorage, sqliteEventStorage] →
      T.EmitsBatch events → events ≠ [] → Holds s.eventStorage log →
      FreshIds newId s.identifiers events.length log →
      (∀ e ∈ events, s.eventStorage.conflict e = none) →
      Composes newId order s log events ignore := by
  intro hall
  have hc : ∀ e ∈ renamedBatch, ({} : SqliteEventStorage ℕ).conflict e = none :=
    fun e _ => Stored.empty.holds.conflict_eq_none_iff.2 (by simp)
  have hb := emits_renamedBatch.emittedBatch
  obtain ⟨s', published, hd, -⟩ := hall uuid
    [sqliteEventStorage, eventIdAugmentor, inMemorySnapshotStorage] counting renamedBatch
    {} [] false (by decide) emits_renamedBatch (by decide) Stored.empty.holds
    freshIds_uuid hc
  have hrejects : Rejects uuid
      [sqliteEventStorage, eventIdAugmentor, inMemorySnapshotStorage] {} renamedBatch false :=
    rejects_events_first hb (by decide) hc
  obtain ⟨s'', hr, -⟩ := hrejects
  rw [hd] at hr
  cases (Prod.mk.inj hr).2

end Runs

end PipelineStage

end NodeCqrs
