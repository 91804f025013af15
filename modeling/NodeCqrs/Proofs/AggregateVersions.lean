import NodeCqrs.Proofs.AggregateEntries
import NodeCqrs.Proofs.AggregateLog
import NodeCqrs.Proofs.EventDispatcher

/-!
# The instances and the stream of what was emitted

An instance that is in a cache is either one a handler works on or is synced with a stream of
events, and one a handler works on was so when the handler began (`Data`). Versions are counted in
any run; the states are `known` where no handler goes on after a failed `emit`. The stream is what
the committed batches were when they were emitted, and it may run ahead of them by the batches whose
snapshots are saved already. In this module it stands, and the steps that store no events and save
no snapshots leave the instances synced with it.
-/

namespace NodeCqrs

variable {I V σ : Type}

namespace Dispatching

/-- The processors a batch has yet to go through. -/
def processors : Dispatching I V → List Stage
  | .processing processors _ | .saving processors _ _ => processors
  | .reverting _ _ => []

/-- The snapshot events of a batch that are not saved yet. -/
def unsaved [Truthy V] : Dispatching I V → List (Event I V)
  | .processing _ data => InMemorySnapshotStorage.snapshotEvents data
  | .saving _ _ todo => todo
  | .reverting _ _ => []

end Dispatching

namespace Phase

def emitThrew : Phase I V σ → Bool
  | .handler _ emitThrew => emitThrew
  | _ => false

/-- The batch, if a snapshot of it is saved and the event storage has yet to get it. -/
def ahead [Truthy V] : Phase I V σ → List (Event I V)
  | .dispatch _ events _ awaits =>
    if .inMemoryEventStorage ∈ awaits.processors
        ∧ awaits.unsaved.length < (events.filter (isSnapshotEvent ·)).length then events
    else []
  | .acquiring _ | .aggregate _ | .handler _ _ => []

end Phase

namespace CommandHandlers

abbrev Sys.log (s : Sys I V σ) : List (Event I V) := s.world.storages.eventStorage.events

abbrev Sys.snapshots (s : Sys I V σ) : I → Option (Event I V) :=
  s.world.storages.snapshotStorage.snapshots

variable [DecidableEq I] [Truthy I] [Truthy V] (known : Prop) (H : CommandHandlers I V σ)
  (stream : List (Event I V))

open AggregateType

/-- An instance no handler works on. -/
def AtRest : Instance I V σ → Prop
  | .restoring _ _ | .failed => True
  | .ready aggregate _ => H.aggregateType.SyncedIf known stream aggregate ∧ aggregate.command = none

/-- The instance has emitted the batch since it started, with snapshots of the states it had. -/
structure Emits (start aggregate : Aggregate I V σ) (events : List (Event I V)) : Prop where
  adds : Adds start aggregate events
  emitted : known → H.aggregateType.Emitted start aggregate events
  taken : known → .inMemorySnapshotStorage ∈ H.pipeline →
    H.aggregateType.Taken start.state events

/-- What of a batch is dispatched: all of it, or what the snapshot storage leaves of it. -/
def Carries (events rest : List (Event I V)) : Prop :=
  rest = events
  ∨ .inMemorySnapshotStorage ∈ H.pipeline ∧ rest = events.filter fun e => !isSnapshotEvent e

/-- A batch on its way. Before the event storage it is what the instance has emitted since it was
synced, and once a snapshot of it is saved it is in the stream. Past the event storage the instance
is synced again and its snapshots are of the stream. -/
def Travels (w : World I V σ) (attempt : Attempt I V σ) (events : List (Event I V))
    (processors : List Stage) (data : List (Envelope I V)) (todo : List (Event I V)) : Prop :=
  events ≠ [] ∧ ∃ aggregate applied, w.instances attempt.ref = some (.ready aggregate applied)
    ∧ aggregate.command = none
    ∧ (processors.count .inMemoryEventStorage = 1
        ∧ (∃ rest, Carries H events rest ∧ data = EventDispatcher.envelopes rest false
          ∧ todo <:+ rest.filter (isSnapshotEvent ·))
        ∧ H.aggregateType.SyncedIf known stream attempt.start
        ∧ Emits known H attempt.start aggregate events
        ∧ (todo.length < (events.filter (isSnapshotEvent ·)).length →
          truthy attempt.start.id = true
            ∧ StandsAt stream attempt.start.id attempt.start.version events)
      ∨ processors.count .inMemoryEventStorage = 0
        ∧ H.aggregateType.SyncedIf known stream aggregate
        ∧ ∀ S ∈ todo ++ InMemorySnapshotStorage.snapshotEvents data,
          StoredSnapshot stream aggregate.id S ∧ S.aggregateId = some aggregate.id)

/-- What the instance of a call is at its await. -/
def CallOK (w : World I V σ) (call : Call I V σ) : Prop :=
  match call.phase with
  | .acquiring _ | .aggregate none => True
  | .aggregate (some ref) => ∀ i, w.instances ref = some i → AtRest known H stream i
  | .handler attempt emitThrew => ∃ aggregate applied,
    w.instances attempt.ref = some (.ready aggregate applied)
    ∧ attempt.eventsOffset = attempt.start.changes.length
    ∧ H.aggregateType.SyncedIf known stream attempt.start
    ∧ ∃ events, Emits (known ∧ emitThrew = false) H attempt.start aggregate events
  | .dispatch attempt events ignoreConcurrencyError awaits => ignoreConcurrencyError = false
    ∧ match awaits with
      | .processing processors data => processors <:+ H.pipeline
        ∧ Travels known H stream w attempt events processors data
          (InMemorySnapshotStorage.snapshotEvents data)
      | .saving processors data todo => .inMemorySnapshotStorage :: processors <:+ H.pipeline
        ∧ Travels known H stream w attempt events processors data todo
      | .reverting _ _ => True

/-- A batch that was stored came from an instance that was synced with the stream before. -/
structure FromSynced (commit : Commit I V σ) : Prop where
  start : H.aggregateType.SyncedIf known stream commit.attempt.start
  numbered : Numbered (·.aggregateVersion) commit.attempt.start.version commit.emitted
  ofId : ∀ e ∈ commit.emitted, e.aggregateId = some commit.attempt.start.id
  carries : Carries H commit.emitted commit.events

/-- What a cache keeps for the next call. -/
def Rests (w : World I V σ) (r : Ref I) : Prop :=
  ∀ i, w.instances r = some i → AtRest known H stream i

/-- The snapshot is one of the stream's. -/
def SnapshotOK (id : I) (S : Event I V) : Prop :=
  .inMemorySnapshotStorage ∈ H.pipeline ∧ StoredSnapshot stream id S

/-- The stream, the stored events, the snapshots and the instances fit together. -/
structure Data (s : Sys I V σ) : Prop where
  numbered : ∀ id, Numbered (·.aggregateVersion) 0 (stored stream id)
  replays : known → ∀ id n, H.aggregateType.Sufficient (H.aggregateType.state id)
    ((stored stream id).take n) → H.aggregateType.Replays (H.aggregateType.state id)
      ((stored stream id).take n)
  taken : known → .inMemorySnapshotStorage ∈ H.pipeline → ∀ id, H.aggregateType.TakenIn stream id
  snapshots : ∀ id S, s.snapshots id = some S → SnapshotOK H stream id S
  restoring : ∀ r id snapshot, s.world.instances r = some (.restoring id snapshot) →
    ∀ S, snapshot = some S → SnapshotOK H stream id S
  log : s.log = s.commits.flatMap (·.events)
  commits : ∀ commit ∈ s.commits, FromSynced known H stream commit
  kept : Kept (fun _ _ => Rests known H stream s.world) (CallOK known H stream s.world) s

variable {known} {H} {stream} {stream' : List (Event I V)} {s s' : Sys I V σ}

omit [DecidableEq I] [Truthy I] in
theorem snapshotEvents_envelopes (events : List (Event I V)) (ignore : Bool) :
    InMemorySnapshotStorage.snapshotEvents (EventDispatcher.envelopes events ignore) =
      events.filter (isSnapshotEvent ·) := by
  rw [InMemorySnapshotStorage.snapshotEvents, EventDispatcher.filterMap_envelopes]

omit [DecidableEq I] [Truthy I] in
theorem withoutSnapshots_envelopes (events : List (Event I V)) (ignore : Bool) :
    InMemorySnapshotStorage.withoutSnapshots (EventDispatcher.envelopes events ignore) =
      EventDispatcher.envelopes (events.filter fun e => !isSnapshotEvent e) ignore := by
  simp [InMemorySnapshotStorage.withoutSnapshots, EventDispatcher.envelopes, List.filter_map,
    Function.comp_def]

omit [DecidableEq I] [Truthy I] in
/-- The snapshot storage leaves no snapshots, whatever it has left before. -/
theorem Carries.without {events rest : List (Event I V)} (h : Carries H events rest) :
    (rest.filter fun e => !isSnapshotEvent e) = events.filter fun e => !isSnapshotEvent e := by
  rcases h with rfl | ⟨-, rfl⟩
  · rfl
  · simp [List.filter_filter]

omit [DecidableEq I] [Truthy I] in
theorem Carries.sublist {events rest : List (Event I V)} (h : Carries H events rest) :
    rest.Sublist events := by
  rcases h with rfl | ⟨-, rfl⟩
  · exact List.Sublist.refl _
  · exact List.filter_sublist

omit [DecidableEq I] [Truthy I] in
theorem Carries.subset {events rest : List (Event I V)} (h : Carries H events rest) :
    rest ⊆ events := h.sublist.subset

omit [DecidableEq I] [Truthy I] in
/-- Only snapshots are left out, and only where there is a storage for them. -/
theorem Carries.thinned {events rest : List (Event I V)} (h : Carries H events rest) :
    Thinned (fun e => .inMemorySnapshotStorage ∈ H.pipeline ∧ e.type = SNAPSHOT_EVENT_TYPE)
      events rest := by
  rcases h with rfl | ⟨hsp, rfl⟩
  · exact .refl _
  · refine .of_filter _ fun e _ he => ⟨hsp, ?_⟩
    simp only [Bool.not_eq_false', isSnapshotEvent, Bool.and_eq_true, decide_eq_true_eq] at he
    exact he.1.2

omit [DecidableEq I] [Truthy I] in
theorem Emits.trans {a a' a'' : Aggregate I V σ} {events events' : List (Event I V)}
    (h : Emits known H a a' events) (h' : Emits known H a' a'' events') :
    Emits known H a a'' (events ++ events') where
  adds := h.adds.trans h'.adds
  emitted hk := (h.emitted hk).trans (h'.emitted hk)
  taken hk hp := (h.taken hk hp).append ((h.emitted hk).state ▸ h'.taken hk hp)

omit [DecidableEq I] [Truthy I] in
theorem Emits.of_imp {known' : Prop} {a a' : Aggregate I V σ} {events : List (Event I V)}
    (h : Emits known H a a' events) (hk : known' → known) : Emits known' H a a' events :=
  ⟨h.adds, fun hk' => h.emitted (hk hk'), fun hk' => h.taken (hk hk')⟩

omit [DecidableEq I] [Truthy I] in
/-- What an instance has emitted does not depend on the command it works on. -/
theorem Emits.setCommand {a a' : Aggregate I V σ} {events : List (Event I V)}
    (h : Emits known H a a' events) (command : Option (Command I V)) :
    Emits known H a { a' with command } events where
  adds := ⟨h.adds.1, h.adds.2, h.adds.3, h.adds.4, h.adds.5⟩
  emitted hk :=
    have he := h.emitted hk
    ⟨he.1, he.2, he.3, he.4, he.5, he.6, he.7⟩
  taken := h.taken

omit [DecidableEq I] [Truthy I] in
/-- A method of a handler emits one event or none. -/
theorem callMethod_emits {a a' : Aggregate I V σ} {method : Method V} {returned : Bool}
    (hk : known → returned = true)
    (hm : ∀ type payload, method = .emit type payload → .inMemorySnapshotStorage ∈ H.pipeline →
      type ≠ SNAPSHOT_EVENT_TYPE)
    (h : H.aggregateType.callMethod a method = (a', returned)) :
    ∃ events, Emits known H a a' events := by
  rcases hret : returned
  · obtain ⟨events, he⟩ := callMethod_adds (T := H.aggregateType) a method
    rw [h] at he
    have hnot : ¬ known := fun hk' => by simp [hk hk'] at hret
    exact ⟨events, he, fun hk' => absurd hk' hnot, fun hk' => absurd hk' hnot⟩
  · rw [hret] at h
    cases method with
    | emit type payload =>
      have he := emit_emitted h
      exact ⟨_, he.adds, fun _ => he,
        fun _ hp => taken_singleton fun ht => absurd ht (hm type payload rfl hp)⟩
    | takeSnapshot =>
      obtain ⟨payload, hpay, he⟩ := takeSnapshot_emitted h
      exact ⟨_, he.adds, fun _ => he, fun _ _ => taken_singleton fun _ => hpay⟩

omit [Truthy I] in
/-- An instance that has emitted nothing is as synced as it was. -/
theorem Emits.syncedIf_of_nil {a a' : Aggregate I V σ} (h : Emits known H a a' [])
    (hs : H.aggregateType.SyncedIf known stream a) : H.aggregateType.SyncedIf known stream a' := by
  have hv : a'.version = a.version := h.adds.version
  refine ⟨?_, fun hk => (hs.synced hk).of_emitted_nil (h.emitted hk)⟩
  rw [h.adds.id, hv]
  exact hs.version

omit [Truthy I] in
/-- With its batch in the stream an instance is synced again. -/
theorem Emits.syncedIf {a a' : Aggregate I V σ} {events : List (Event I V)}
    (h : Emits known H a a' events) (hs : H.aggregateType.SyncedIf known stream a)
    (hst : StandsAt stream a.id a.version events) : H.aggregateType.SyncedIf known stream a' := by
  refine ⟨?_, fun hk => (hs.synced hk).of_standsAt (h.emitted hk) hst⟩
  rw [h.adds.id, h.adds.version]
  exact hst.take.1

section mono

variable (h : stream <+: stream')
include h

omit [Truthy I] in
theorem AtRest.mono : ∀ {i : Instance I V σ}, AtRest known H stream i → AtRest known H stream' i
  | .ready _ _, hi => ⟨hi.1.mono h, hi.2⟩
  | .restoring _ _, _ | .failed, _ => trivial

omit [Truthy I] in
theorem Rests.mono {w : World I V σ} {r : Ref I} (hr : Rests known H stream w r) :
    Rests known H stream' w r :=
  fun i hi => (hr i hi).mono h

omit [Truthy I] [Truthy V] in
theorem SnapshotOK.mono {id : I} {S : Event I V} (hS : SnapshotOK H stream id S) :
    SnapshotOK H stream' id S :=
  ⟨hS.1, hS.2.mono h⟩

omit [Truthy I] in
theorem FromSynced.mono {commit : Commit I V σ} (hc : FromSynced known H stream commit) :
    FromSynced known H stream' commit :=
  ⟨hc.start.mono h, hc.numbered, hc.ofId, hc.carries⟩

theorem Travels.mono {w : World I V σ} {attempt : Attempt I V σ} {events : List (Event I V)}
    {processors : List Stage} {data : List (Envelope I V)} {todo : List (Event I V)}
    (ht : Travels known H stream w attempt events processors data todo) :
    Travels known H stream' w attempt events processors data todo := by
  obtain ⟨hne, aggregate, applied, hi, hcmd, ht⟩ := ht
  refine ⟨hne, aggregate, applied, hi, hcmd, ?_⟩
  rcases ht with ⟨h1, h2, h3, h4, h5⟩ | ⟨h1, h2, h3⟩
  · exact .inl ⟨h1, h2, h3.mono h, h4, fun hlt => ⟨(h5 hlt).1, (h5 hlt).2.mono h⟩⟩
  · exact .inr ⟨h1, h2.mono h, fun S hS => ⟨(h3 S hS).1.mono h, (h3 S hS).2⟩⟩

theorem CallOK.mono {w : World I V σ} {call : Call I V σ} (hok : CallOK known H stream w call) :
    CallOK known H stream' w call := by
  rcases hp : call.phase with awaits | ref | ⟨attempt, threw⟩ | ⟨attempt, events, flag, awaits⟩
  · simp [CallOK, hp]
  · rcases ref with _ | r
    · simp [CallOK, hp]
    · simp only [CallOK, hp] at hok ⊢
      exact fun i hi => (hok i hi).mono h
  · simp only [CallOK, hp] at hok ⊢
    obtain ⟨aggregate, applied, hi, ho, hs, he⟩ := hok
    exact ⟨aggregate, applied, hi, ho, hs.mono h, he⟩
  · simp only [CallOK, hp] at hok ⊢
    cases awaits with
    | processing processors data => exact ⟨hok.1, hok.2.1, hok.2.2.mono h⟩
    | saving processors data todo => exact ⟨hok.1, hok.2.1, hok.2.2.mono h⟩
    | reverting todo error => exact hok

end mono

variable (known H stream) in
/-- The instance stays, or was being restored and is now at rest. -/
def Keeps (w w' : World I V σ) (r : Ref I) : Prop :=
  w'.instances r = w.instances r
  ∨ (∃ id snapshot, w.instances r = some (.restoring id snapshot)) ∧ Rests known H stream w' r

omit [Truthy I] in
theorem Rests.congr {w w' : World I V σ} {r : Ref I} (hr : Keeps known H stream w w' r)
    (h : Rests known H stream w r) : Rests known H stream w' r := by
  rcases hr with he | ⟨-, he⟩
  · exact fun i hi => h i (he ▸ hi)
  · exact he

theorem CallOK.congr {w w' : World I V σ} {call : Call I V σ}
    (hr : ∀ r, call.phase.ref = some r → Keeps known H stream w w' r)
    (h : CallOK known H stream w call) : CallOK known H stream w' call := by
  have hready : ∀ {r aggregate applied}, call.phase.ref = some r →
      w.instances r = some (.ready aggregate applied) →
      w'.instances r = some (.ready aggregate applied) := by
    intro r aggregate applied hp hi
    rcases hr r hp with he | ⟨⟨id, snapshot, he⟩, -⟩
    · exact he.trans hi
    · simp [hi] at he
  have htravels : ∀ {attempt events flag awaits processors data todo},
      call.phase = .dispatch attempt events flag awaits →
      Travels known H stream w attempt events processors data todo →
      Travels known H stream w' attempt events processors data todo := by
    rintro attempt events flag awaits processors data todo hp ⟨hne, aggregate, applied, hi, ht⟩
    exact ⟨hne, aggregate, applied, hready (by simp [hp, Phase.ref]) hi, ht⟩
  rcases hp : call.phase with awaits | ref | ⟨attempt, threw⟩ | ⟨attempt, events, flag, awaits⟩
  · simp [CallOK, hp]
  · rcases ref with _ | r
    · simp [CallOK, hp]
    · simp only [CallOK, hp] at h ⊢
      exact Rests.congr (hr r (by simp [hp, Phase.ref])) h
  · simp only [CallOK, hp] at h ⊢
    obtain ⟨aggregate, applied, hi, ho, hs, he⟩ := h
    exact ⟨aggregate, applied, hready (by simp [hp, Phase.ref]) hi, ho, hs, he⟩
  · simp only [CallOK, hp] at h ⊢
    cases awaits with
    | processing processors data => exact ⟨h.1, h.2.1, htravels hp h.2.2⟩
    | saving processors data todo => exact ⟨h.1, h.2.1, htravels hp h.2.2⟩
    | reverting todo error => exact h

namespace Data

/-- Calls and caches change, and what is kept stays kept. -/
theorem of_kept (hD : Data known H stream s) (hw : s'.world = s.world)
    (hk : s'.commits = s.commits)
    (hkept : Kept (fun _ _ => Rests known H stream s.world) (CallOK known H stream s.world) s') :
    Data known H stream s' := by
  obtain ⟨h1, h2, h3, h4, h5, h6, h7, -⟩ := hD
  exact ⟨h1, h2, h3, by rwa [Sys.snapshots, hw], by rwa [hw], by rwa [Sys.log, hw, hk], by rwa [hk],
    by rwa [hw]⟩

/-- Instances are made, or restored. -/
theorem setWorld (hD : Data known H stream s) (hS : Shape H s) {w : World I V σ}
    (he : w.storages.eventStorage.events = s.log)
    (hs : w.storages.snapshotStorage.snapshots = s.snapshots)
    (hr : ∀ r id snapshot, w.instances r = some (.restoring id snapshot) →
      s.world.instances r = some (.restoring id snapshot) ∨ snapshot = s.snapshots id)
    (hk : ∀ r, r.serial < s.world.nextRef → Keeps known H stream s.world w r) :
    Data known H stream (s.setWorld w) where
  numbered := hD.numbered
  replays := hD.replays
  taken := hD.taken
  snapshots := by
    rw [Sys.snapshots, Sys.setWorld_world, hs]
    exact hD.snapshots
  restoring r id snapshot hi S hS := by
    rcases hr r id snapshot hi with h | rfl
    · exact hD.restoring r id snapshot h S hS
    · exact hD.snapshots id S hS
  log := by
    rw [Sys.log, Sys.setWorld_world, he]
    exact hD.log
  commits := hD.commits
  kept := hD.kept.mono rfl (fun _ _ => rfl)
    (fun h id r hre hrest => Rests.congr (hk r ((hS.entry h id).value r hre).2) hrest)
    fun c call hc hok => hok.congr fun r hrc => hk r ((hS.calls c call hc).ref r hrc).2

/-- An instance that was being restored has been, or failed to be. -/
theorem setInstance (hD : Data known H stream s) (hS : Shape H s) {ref : Ref I} {id : I}
    {snapshot : Option (Event I V)} {i : Instance I V σ}
    (hi : s.world.instances ref = some (.restoring id snapshot))
    (hrest : AtRest known H stream i) (hne : ∀ id' snapshot', i ≠ .restoring id' snapshot') :
    Data known H stream (s.setWorld (s.world.setInstance ref i)) := by
  refine hD.setWorld hS rfl rfl (fun r id' snapshot' hr => .inl ?_) fun r _ => ?_
  · by_cases hrr : r = ref
    · exact absurd (by simpa [World.setInstance, hrr] using hr) (hne id' snapshot')
    · simpa [World.setInstance, hrr] using hr
  · by_cases hrr : r = ref
    · refine .inr ⟨⟨id, snapshot, hrr ▸ hi⟩, fun i' hi' => ?_⟩
      obtain rfl : i = i' := by simpa [World.setInstance, hrr] using hi'
      exact hrest
    · exact .inl (by simp [World.setInstance, hrr])

/-- A call writes to its instance and works on it, or leaves it at rest. -/
theorem write (hD : Data known H stream s) (hS : Shape H s) {c : ℕ} {call : Call I V σ}
    {ref : Ref I} {aggregate : Aggregate I V σ} {applied : List (Event I V)} {phase : Phase I V σ}
    (hc : s.calls c = some call) (hr : call.phase.ref = some ref)
    (hok : CallOK known H stream (s.world.setInstance ref (.ready aggregate applied))
      { call with phase })
    (hw : phase.works ref
      ∨ H.aggregateType.SyncedIf known stream aggregate ∧ aggregate.command = none) :
    Data known H stream ((s.setWorld (s.world.setInstance ref (.ready aggregate applied))).goOn c
      call phase) := by
  have hstays : ∀ r, r ≠ ref → Keeps known H stream s.world
      (s.world.setInstance ref (.ready aggregate applied)) r :=
    fun r hrr => .inl (by simp [World.setInstance, hrr])
  refine ⟨hD.numbered, hD.replays, hD.taken, hD.snapshots, fun r id snapshot hi => ?_, hD.log,
    hD.commits, fun h id r hre => ?_, fun x callx hx => ?_⟩
  · by_cases hrr : r = ref
    · simp [Sys.goOn, World.setInstance, hrr] at hi
    · exact hD.restoring r id snapshot (by simpa [Sys.goOn, World.setInstance, hrr] using hi)
  · by_cases hrr : r = ref
    · subst hrr
      rcases hw with hw | hi
      · exact .inl ⟨c, { call with phase }, by simp [Sys.goOn], hw⟩
      · refine .inr fun i' hi' => ?_
        obtain rfl : _ = i' := by simpa [Sys.goOn, World.setInstance] using hi'
        exact hi
    · rcases hD.kept.entries h id r hre with ⟨x, callx, hx, hwx⟩ | hi
      · refine .inl ⟨x, callx, ?_, hwx⟩
        have hxc : x ≠ c := ne_of_works hc hr hx hwx hrr
        simpa [Sys.goOn, hxc] using hx
      · exact .inr (Rests.congr (hstays r hrr) hi)
  · by_cases hxc : x = c
    · obtain rfl : { call with phase } = callx := by simpa [Sys.goOn, hxc] using hx
      exact hok
    · have hx : s.calls x = some callx := by simpa [Sys.goOn, hxc] using hx
      exact (hD.kept.calls x callx hx).congr fun r hrx =>
        hstays r (hS.ref_ne hx hc hrx hr hxc)

omit [Truthy I] in
theorem keeps_make (o : Owner I) (i : Instance I V σ) (w : World I V σ) {r : Ref I}
    (hr : r.serial < w.nextRef) : Keeps known H stream w (w.make o i).1 r := by
  have hne : r ≠ ⟨o, w.nextRef⟩ := fun h => Nat.lt_irrefl w.nextRef (by rw [h] at hr; exact hr)
  exact .inl (by simp [World.make, World.setInstance, hne])

omit [Truthy I] [Truthy V] in
/-- A new instance is restored from the snapshot there is. -/
theorem restoring_make {o : Owner I} {w : World I V σ} {i : Instance I V σ} {r : Ref I} {id : I}
    {snapshot : Option (Event I V)}
    (hi : ∀ id' snapshot', i = .restoring id' snapshot' →
      snapshot' = w.storages.snapshotStorage.snapshots id')
    (h : (w.make o i).1.instances r = some (.restoring id snapshot)) :
    w.instances r = some (.restoring id snapshot)
      ∨ snapshot = w.storages.snapshotStorage.snapshots id := by
  by_cases hr : r = ⟨o, w.nextRef⟩
  · exact .inr (hi id snapshot (by simpa [World.make, World.setInstance, hr] using h))
  · exact .inl (by simpa [World.make, World.setInstance, hr] using h)

/-- `#aggregatesCache.get` -/
theorem getCacheEntry (hD : Data known H stream s) (hS : Shape H s) (h : ℕ) (id : I) :
    Data known H stream (getCacheEntry s h id).1 := by
  rcases hf : (s.cache h).factories id with _ | f
  · rw [getCacheEntry_eq hf]
    exact hD
  · rw [getCacheEntry_of_factory hf]
    have hD' : Data known H stream (s.setWorld (s.world.restoreAggregate h f).1) :=
      hD.setWorld hS rfl rfl (fun r id snapshot => restoring_make (by rintro _ _ ⟨⟩; rfl))
        fun r hr => keeps_make _ _ _ hr
    refine hD'.of_kept rfl rfl (hD'.kept.setCaches rfl fun h' id' r hr => ?_)
    by_cases hk : h' = h ∧ id' = id
    · obtain ⟨rfl, rfl⟩ := hk
      obtain rfl : _ = r := by simpa using hr
      refine .inr fun i hi => ?_
      obtain rfl : _ = i := by
        simpa [World.restoreAggregate, World.make, World.setInstance] using hi
      trivial
    · refine .inl ?_
      by_cases hh : h' = h
      · have hne : id' ≠ id := fun h => hk ⟨hh, h⟩
        simpa [hh, hne] using hr
      · simpa [hh] using hr

/-- The `finally` of `execute`, for a call that leaves its instance at rest. -/
theorem finish (hD : Data known H stream s) {c : ℕ} {call : Call I V σ}
    (hrest : ∀ call r, s.calls c = some call → call.phase.works r →
      Rests known H stream s.world r) : Data known H stream (H.finish s c call) :=
  hD.of_kept (by simp) (by simp) (hD.kept.finish fun call r _ _ hc hw _ => hrest call r hc hw)

theorem throwFrom (hD : Data known H stream s) (hS : Shape H s) {c : ℕ} {call : Call I V σ}
    (hc : s.calls c = some call) : Data known H stream (H.throwFrom s c call) :=
  hD.of_kept (by simp [CommandHandlers.throwFrom]) (by simp [CommandHandlers.throwFrom])
    (hD.kept.throwFrom hS hc)

omit [Truthy I] in
theorem syncedIf_create (stream : List (Event I V)) (id : I) :
    H.aggregateType.SyncedIf known stream (H.aggregateType.create id) :=
  ⟨Nat.zero_le _, fun _ => ⟨Nat.zero_le _, fun _ => by simp [create]⟩⟩

/-- A call without a lock makes a new instance. -/
theorem createAggregate (hD : Data known H stream s) (hS : Shape H s) {c : ℕ} {call : Call I V σ}
    (hw : ∀ call' r, s.calls c = some call' → ¬ call'.phase.works r)
    (hid : aggregateId call = none) : Data known H stream (H.getAggregate s c call) := by
  simp only [CommandHandlers.getAggregate, hid]
  have hD' := hD.setWorld hS (w := ((s.world.setEventStorage
    s.world.storages.eventStorage.getNewId.1).make (.call c) (.ready (H.aggregateType.create
      (H.newId s.world.storages.eventStorage.getNewId.2)) [])).1) rfl rfl
    (fun r id snapshot => restoring_make (by simp)) fun r hr => keeps_make _ _ _ hr
  refine hD'.of_kept rfl rfl (hD'.kept.setCall ?_ fun call' r _ _ hc hw' _ =>
    absurd hw' (hw call' r hc))
  intro i hi
  obtain rfl : _ = i := by simpa [World.make, World.setInstance] using hi
  exact ⟨syncedIf_create _ _, rfl⟩

/-- A call that has a lease and no instance gets one. -/
theorem getAggregate (hD : Data known H stream s) (hS : Shape H s) {c : ℕ}
    {call call' : Call I V σ} (hc : s.calls c = some call) (hp : call.phase = .acquiring .acquired)
    (hh : call'.handler = call.handler) (hcmd : call'.cmd = call.cmd) :
    Data known H stream (H.getAggregate s c call') := by
  have hid' : aggregateId call' = aggregateId call := by simp [aggregateId, hcmd]
  have hnw : ∀ callx r, s.calls c = some callx → ¬ callx.phase.works r := by
    intro callx r hx
    obtain rfl := Option.some.inj (hc.symm.trans hx)
    simp [hp, Phase.works]
  rcases hid : aggregateId call with _ | id
  · exact hD.createAggregate hS hnw (hid'.trans hid)
  simp only [CommandHandlers.getAggregate, hid'.trans hid]
  have hD' := hD.getCacheEntry hS call'.handler id
  have hS' := hS.getCacheEntry call'.handler id
  have hentry := getCacheEntry_ref s call'.handler id
  have hcalls := getCacheEntry_calls s call'.handler id
  generalize CommandHandlers.getCacheEntry s call'.handler id = e at hD' hS' hentry hcalls ⊢
  obtain ⟨t, ref⟩ := e
  simp only at hD' hS' hentry hcalls
  refine hD'.of_kept rfl rfl (hD'.kept.setCall ?_ fun callx r _ _ hx hw _ =>
    absurd hw (hnw callx r (hcalls ▸ hx)))
  rcases ref with _ | r
  · trivial
  refine (hD'.kept.entries _ _ r hentry).resolve_left ?_
  -- one that works on the entry's instance has a lease, which is this call's
  rintro ⟨x, callx, hx, hw⟩
  have hr := Phase.ref_of_works hw
  obtain ⟨hhx, hidx⟩ := hS'.entry_of_ref hx hr hentry
  have hxc := hS'.mutex x c callx call id id hx (hcalls ▸ hc) (hhx.symm.trans hh) hidx hid rfl
    (Phase.leased_of_ref hr) (by simp [hp, Phase.leased])
  exact hnw callx r (hcalls ▸ hxc ▸ hx) hw

/-- A call that awaits its lock has asked for it. -/
theorem setLock (hD : Data known H stream s) {c h : ℕ} {call : Call I V σ}
    {awaits awaits' : Acquiring} (lock : Lock) (hc : s.calls c = some call)
    (hp : call.phase = .acquiring awaits) :
    Data known H stream ((s.setLock h lock).goOn c call (.acquiring awaits')) := by
  have hl : Kept (fun _ _ => Rests known H stream s.world) (CallOK known H stream s.world)
      (s.setLock h lock) := hD.kept.setCaches rfl fun h' id' r hr => .inl (by simpa using hr)
  refine hD.of_kept rfl rfl (hl.setCall trivial fun callx r _ _ hx hw => ?_)
  obtain rfl := Option.some.inj (hc.symm.trans hx)
  rw [hp] at hw
  exact absurd hw not_false

/-- A call with a lease drops its instance, and the entry's. -/
theorem reset (hD : Data known H stream s) (hS : Shape H s) {c : ℕ} {call : Call I V σ}
    (hc : s.calls c = some call) : Data known H stream ((resetCacheEntry s call).setCall c
      { call with phase := .acquiring .acquired }) :=
  hD.of_kept (by simp) (by simp) (hD.kept.reset hS hc trivial)

theorem execute (hD : Data known H stream s) (hS : Shape H s) {c h : ℕ} {cmd : Command I V}
    (hc : s.calls c = none) : Data known H stream (H.execute s c h cmd) := by
  simp only [CommandHandlers.execute]
  split
  · rename_i hid
    exact hD.createAggregate hS (fun call' _ hc' => by simp [hc] at hc') hid
  · rename_i id hid
    let call : Call I V σ := { handler := h, cmd, phase := .acquiring (.blockingLock 0) }
    have h1 : Kept (fun _ _ => Rests known H stream s.world) (CallOK known H stream s.world)
        (s.setCache h ((s.cache h).use id id)) :=
      hD.kept.setCaches rfl fun h' id' r hr => .inl (by
        by_cases hh : h' = h
        · simpa [hh, MapAssertable.use_entries] using hr
        · simpa [hh] using hr)
    have h2 : Data known H stream ((s.setCache h ((s.cache h).use id id)).setCall c call) :=
      hD.of_kept rfl rfl (h1.setCall trivial fun call' r _ _ hc' => by simp [hc] at hc')
    have h3 : Data known H stream ((allocateCacheEntry s h id).setCall c call) := by
      rw [allocateCacheEntry_eq]
      exact h2.getCacheEntry (hS.begin hc (show aggregateId call = some id from hid) rfl) h id
    generalize ((allocateCacheEntry s h id).lock h).acquire (H.lockName id) = a
    have h4 : Data known H stream ((((allocateCacheEntry s h id).setLock h a.1).setCall c
        call).setCall c { call with phase := .acquiring a.2 }) :=
      h3.setLock a.1 (Sys.setCall_calls_self ..) rfl
    rwa [Sys.setCall_setCall] at h4

/-- A handler throws. -/
theorem threw (hD : Data known H stream s) (hS : Shape H s) {c : ℕ} {call : Call I V σ}
    {attempt : Attempt I V σ} {emitThrew : Bool} {aggregate : Aggregate I V σ}
    {applied : List (Event I V)} (hc : s.calls c = some call)
    (hp : call.phase = .handler attempt emitThrew)
    (hi : s.world.instances attempt.ref ≠ none) :
    Data known H stream (H.throwFrom (s.setWorld (s.world.setInstance attempt.ref
      (.ready aggregate applied))) c call) := by
  let phase : Phase I V σ := .dispatch attempt [] false (.reverting [] (.error ""))
  have hD' : Data known H stream ((s.setWorld (s.world.setInstance attempt.ref
      (.ready aggregate applied))).goOn c call phase) :=
    hD.write hS hc (by simp [hp, Phase.ref]) ⟨rfl, trivial⟩ (.inl ⟨rfl, rfl⟩)
  have hS' : Shape H ((s.setWorld (s.world.setInstance attempt.ref (.ready aggregate applied))).goOn
      c call phase) :=
    (hS.setInstance (.ready aggregate applied) hi).goOn hc (by simp [hp, Phase.leased])
      (by simp [hp, Phase.ref, phase]) (by simp [hp, Phase.atEntry])
  have h := hD'.throwFrom hS' (Sys.setCall_calls_self ..)
  rwa [Sys.goOn, throwFrom_setCall] at h

/-- A handler has come to its end. -/
theorem returned (hD : Data known H stream s) (hS : Shape H s)
    (hE : H.pipeline.count .inMemoryEventStorage = 1) {c : ℕ} {call : Call I V σ}
    {attempt : Attempt I V σ} {emitThrew b : Bool} {aggregate aggregate' : Aggregate I V σ}
    {applied applied' events : List (Event I V)} (hc : s.calls c = some call)
    (hp : call.phase = .handler attempt emitThrew) (hk : known → emitThrew = false)
    (hi : s.world.instances attempt.ref = some (.ready aggregate applied))
    (ha : H.aggregateType.getUncommittedEvents aggregate b attempt.eventsOffset =
      (aggregate', some events)) :
    (events = [] → Data known H stream (H.finish (s.setWorld (s.world.setInstance attempt.ref
      (.ready { aggregate' with command := none } applied'))) c call))
    ∧ (events ≠ [] → Data known H stream ((s.setWorld (s.world.setInstance attempt.ref
      (.ready { aggregate' with command := none } applied'))).goOn c call
        (.dispatch { attempt with shouldTakeSnapshot := b } events false
          (H.dispatch events false)))) := by
  have hok := hD.kept.calls c call hc
  simp only [CallOK, hp, hi, Option.some.injEq, Instance.ready.injEq] at hok
  obtain ⟨_, _, ⟨rfl, rfl⟩, ho, hs, events', he⟩ := hok
  obtain ⟨hev, new, hem, htaken⟩ := getUncommittedEvents_emitted ha
  have hall : Emits known H attempt.start { aggregate' with command := none } (events' ++ new) :=
    ((he.of_imp fun hk' => ⟨hk', hk hk'⟩).trans
      ⟨hem.adds, fun _ => hem, fun _ _ => htaken⟩).setCommand none
  obtain rfl : events = events' ++ new := by
    have hchanges : aggregate'.changes = attempt.start.changes ++ (events' ++ new) :=
      hall.adds.changes
    rw [hev, hchanges, ho, List.drop_left]
  refine ⟨fun h0 => ?_, fun hne => ?_⟩
  · -- nothing was emitted, so the instance is as it was
    rw [h0] at hall
    have hsync := hall.syncedIf_of_nil hs
    have hD' : Data known H stream ((s.setWorld (s.world.setInstance attempt.ref
        (.ready { aggregate' with command := none } applied'))).goOn c call
          (.aggregate (some attempt.ref))) :=
      hD.write hS hc (by simp [hp, Phase.ref]) (fun i hi => ?_) (.inr ⟨hsync, rfl⟩)
    · rw [Sys.goOn] at hD'
      rw [← finish_setCall H _ c call]
      exact hD'.finish fun call' r hc' hw => by
        obtain rfl : _ = call' := by simpa using hc'
        exact absurd hw (by simp [Phase.works])
    · obtain rfl : _ = i := by simpa [World.setInstance] using hi
      exact ⟨hsync, rfl⟩
  · refine hD.write hS hc (show _ = some attempt.ref by simp [hp, Phase.ref]) ⟨rfl, ?_⟩
      (.inl ⟨rfl, rfl⟩)
    simp only [dispatch]
    split_ifs
    · trivial
    · refine ⟨List.suffix_rfl, hne, { aggregate' with command := none }, applied', ?_, rfl,
        .inl ⟨hE, ⟨_, .inl rfl, rfl, ?_⟩, hs, hall, ?_⟩⟩
      · simp [World.setInstance]
      · simp only [snapshotEvents_envelopes, List.suffix_rfl]
      · rw [snapshotEvents_envelopes]
        exact fun hlt => absurd hlt (Nat.lt_irrefl _)

end Data

end CommandHandlers

end NodeCqrs
