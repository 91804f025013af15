import NodeCqrs.Proofs.AggregateVersions

/-!
# A batch on its way through the storages

What a dispatch does to the stream and the instances. A batch is put into the stream when a snapshot
of it is saved, or else when the event storage appends it, and it has to start where the stream of
its aggregate ends (`Data.grow`). With its batch in the stream a dispatch goes on and the stream
stands (`Data.dispatches`, `Data.commit`), and so it does at all steps that are no dispatch's
(`Effect.data`).
-/

namespace NodeCqrs

variable {I V σ : Type}

/-- The batch is in the snapshot storage, with a snapshot to save, and not in the event storage. -/
def Phase.savesEarly : Phase I V σ → Bool
  | .dispatch _ _ _ (.saving processors _ (_ :: _)) => .inMemoryEventStorage ∈ processors
  | _ => false

namespace CommandHandlers

/-- The batch of the call, if a snapshot of it is saved and the event storage has yet to get it. -/
def Sys.ahead [Truthy V] (s : Sys I V σ) (c : ℕ) : List (Event I V) :=
  (s.calls c).elim [] (·.phase.ahead)

variable [DecidableEq I] [Truthy I] [Truthy V] {known : Prop} {H : CommandHandlers I V σ}
  {stream : List (Event I V)} {s s' : Sys I V σ} {c : ℕ} {call : Call I V σ}
  {attempt : Attempt I V σ} {events : List (Event I V)} {flag : Bool}

open AggregateType

section conditions

/-- Conflicts are not ignored, and there are no other writers. -/
def NeverIgnores (_ : Sys I V σ) : Action I V → Prop
  | .settle _ decision => decision ≠ .ignore
  | .append _ => False
  | _ => True

instance : ∀ (s : Sys I V σ) (a : Action I V), Decidable (NeverIgnores s a)
  | _, .settle _ decision => inferInstanceAs (Decidable (decision ≠ .ignore))
  | _, .append _ => inferInstanceAs (Decidable False)
  | _, .handlerReturns .. | _, .execute .. | _, .acquire _ | _, .lease _ | _, .restore _
  | _, .restoreFails _ | _, .handle _ | _, .emit .. | _, .takeSnapshot _ | _, .handlerThrows _
  | _, .process _ => inferInstanceAs (Decidable True)

/-- No dispatch ignores conflicts, no one else writes, and a handler that returns had no `emit`
throw. -/
def Regular (s : Sys I V σ) : Action I V → Prop
  | .settle _ decision => decision ≠ .ignore
  | .append _ => False
  | .handlerReturns c _ => (s.calls c).any (·.phase.emitThrew) = false
  | _ => True

instance : ∀ (s : Sys I V σ) (a : Action I V), Decidable (Regular s a)
  | _, .settle _ decision => inferInstanceAs (Decidable (decision ≠ .ignore))
  | _, .append _ => inferInstanceAs (Decidable False)
  | s, .handlerReturns c _ => inferInstanceAs (Decidable ((s.calls c).any _ = false))
  | _, .execute .. | _, .acquire _ | _, .lease _ | _, .restore _ | _, .restoreFails _
  | _, .handle _ | _, .emit .. | _, .takeSnapshot _ | _, .handlerThrows _ | _, .process _ =>
    inferInstanceAs (Decidable True)

variable (H) in
/-- Snapshots are what `takeSnapshot` makes. -/
def MakesSnapshots (_ : Sys I V σ) : Action I V → Prop
  | .emit _ type _ => .inMemorySnapshotStorage ∈ H.pipeline → type ≠ SNAPSHOT_EVENT_TYPE
  | _ => True

instance (H : CommandHandlers I V σ) :
    ∀ (s : Sys I V σ) (a : Action I V), Decidable (MakesSnapshots H s a)
  | _, .emit _ type _ => inferInstanceAs (Decidable (_ → type ≠ SNAPSHOT_EVENT_TYPE))
  | _, .process _ | _, .settle .. | _, .append _ | _, .handlerReturns .. | _, .execute ..
  | _, .acquire _ | _, .lease _ | _, .restore _ | _, .restoreFails _ | _, .handle _
  | _, .takeSnapshot _ | _, .handlerThrows _ => inferInstanceAs (Decidable True)

variable (H) in
/-- Snapshots are what `takeSnapshot` makes, and saved once their batch is committed. -/
def SavesCommitted (s : Sys I V σ) : Action I V → Prop
  | .emit _ type _ => .inMemorySnapshotStorage ∈ H.pipeline → type ≠ SNAPSHOT_EVENT_TYPE
  | .process c =>
    .inMemorySnapshotStorage ∈ H.pipeline → (s.calls c).any (·.phase.savesEarly) = false
  | _ => True

instance (H : CommandHandlers I V σ) :
    ∀ (s : Sys I V σ) (a : Action I V), Decidable (SavesCommitted H s a)
  | _, .emit _ type _ => inferInstanceAs (Decidable (_ → type ≠ SNAPSHOT_EVENT_TYPE))
  | s, .process c => inferInstanceAs (Decidable (_ → (s.calls c).any _ = false))
  | _, .settle .. | _, .append _ | _, .handlerReturns .. | _, .execute .. | _, .acquire _
  | _, .lease _ | _, .restore _ | _, .restoreFails _ | _, .handle _ | _, .takeSnapshot _
  | _, .handlerThrows _ => inferInstanceAs (Decidable True)

omit [DecidableEq I] [Truthy I] [Truthy V] in
theorem SavesCommitted.makesSnapshots {a : Action I V} (h : SavesCommitted H s a) :
    MakesSnapshots H s a := by
  cases a <;> first | exact h | trivial

omit [DecidableEq I] [Truthy I] [Truthy V] in
theorem Regular.neverIgnores {a : Action I V} (h : Regular s a) : NeverIgnores s a := by
  cases a <;> first | exact h | trivial

end conditions

omit [DecidableEq I] [Truthy I] in
theorem snapshotEvents_withoutSnapshots (data : List (Envelope I V)) :
    InMemorySnapshotStorage.snapshotEvents (InMemorySnapshotStorage.withoutSnapshots data)
      = [] := by
  refine List.filter_eq_nil_iff.2 fun S hS => ?_
  obtain ⟨envelope, he, hS⟩ := List.mem_filterMap.1 hS
  have := (List.mem_filter.1 he).2
  rw [hS] at this
  simpa using this

omit [DecidableEq I] [Truthy I] in
theorem mem_ahead {awaits : Dispatching I V} {e : Event I V} :
    e ∈ (Phase.dispatch attempt events flag awaits).ahead ↔
      (.inMemoryEventStorage ∈ awaits.processors
        ∧ awaits.unsaved.length < (events.filter (isSnapshotEvent ·)).length) ∧ e ∈ events := by
  simp only [Phase.ahead]
  split_ifs with h
  · exact (and_iff_right h).symm
  · simp [h]

namespace Data

/-- A dispatch goes on, its call with the instance it has. -/
theorem dispatching {commits : List (Commit I V σ)} {awaits awaits' : Dispatching I V}
    (hD : Data known H stream s) (storages : Storages I V) (hc : s.calls c = some call)
    (hp : call.phase = .dispatch attempt events flag awaits)
    (hsnap : ∀ id S, storages.snapshotStorage.snapshots id = some S → SnapshotOK H stream id S)
    (hlog : storages.eventStorage.events = commits.flatMap (·.events))
    (hcommits : ∀ commit ∈ commits, FromSynced known H stream commit)
    (hok : CallOK known H stream s.world
      { call with phase := .dispatch attempt events flag awaits' }) :
    Data known H stream ({ s with world := { s.world with storages }, commits }.goOn c call
      (.dispatch attempt events flag awaits')) := by
  have hkeeps : ∀ r, Keeps known H stream s.world { s.world with storages } r := fun _ => .inl rfl
  have hkept : Kept (fun _ _ => Rests known H stream { s.world with storages })
      (CallOK known H stream { s.world with storages })
      { s with world := { s.world with storages }, commits } :=
    hD.kept.mono rfl (fun _ _ => rfl) (fun _ _ r _ => Rests.congr (hkeeps r))
      fun _ _ _ => CallOK.congr fun r _ => hkeeps r
  refine ⟨hD.numbered, hD.replays, hD.taken, hsnap, hD.restoring, hlog, hcommits,
    hkept.setCall (hok.congr fun r _ => hkeeps r) fun callx r h id hx hw _ => .inl ?_⟩
  obtain rfl := Option.some.inj (hc.symm.trans hx)
  simpa [hp, Phase.works] using hw

/-- A batch that starts where the stream of its aggregate ends is put into it. -/
theorem grow {aggregate : Aggregate I V σ} (hD : Data known H stream s)
    (hs : H.aggregateType.SyncedIf known stream attempt.start)
    (he : Emits known H attempt.start aggregate events)
    (hv : attempt.start.version = (stored stream attempt.start.id).length) :
    Data known H (stream ++ events) s := by
  have hgrows : stream <+: stream ++ events := List.prefix_append ..
  refine ⟨fun id => ?_, fun hk id n => ?_, fun hk hp id => ?_, fun id S hS => ?_,
    fun r id snapshot hi S hS => ?_, hD.log, fun commit hc => (hD.commits commit hc).mono hgrows,
    hD.kept.mono rfl (fun _ _ => rfl) (fun _ _ _ _ hr => hr.mono hgrows)
      fun _ _ _ hok => hok.mono hgrows⟩
  · rw [stored_append he.adds.ofId]
    split_ifs with hid
    · refine (hD.numbered id).append ?_
      rw [hid, Nat.zero_add, ← hv]
      exact he.adds.numbered
    · rw [List.append_nil]
      exact hD.numbered id
  · exact replays_stored_append (hD.replays hk) (hs.synced hk) (he.emitted hk) hv id n
  · exact takenIn_append (hD.taken hk hp) (hs.synced hk) (he.emitted hk) hv (he.taken hk hp) id
  · exact (hD.snapshots id S hS).mono hgrows
  · exact (hD.restoring r id snapshot hi S hS).mono hgrows

/-- The event storage appends a batch of the stream. -/
theorem commit {processors : List Stage} {data data' : List (Envelope I V)}
    {eventStorage : InMemoryEventStorage I V} (hD : Data known H stream s)
    (hc : s.calls c = some call)
    (hp : call.phase = .dispatch attempt events flag
      (.processing (.inMemoryEventStorage :: processors) data))
    (hr : s.world.storages.eventStorage.process data = (eventStorage, .ok data'))
    (hst : StandsAt stream attempt.start.id attempt.start.version events) :
    Data known H stream (((s.setWorld (s.world.setEventStorage eventStorage)).addCommit {
      handler := call.handler
      cmd := call.cmd
      attempt
      emitted := events
      events := data.filterMap (·.event) }).goOn c call
        (.dispatch attempt events flag (.processing processors data'))) := by
  have hok := hD.kept.calls c call hc
  simp only [CallOK, hp] at hok
  obtain ⟨rfl, hsuf, hne, aggregate, applied, hi, hcmd, ht⟩ := hok
  rcases ht with ⟨hcount, ⟨rest, hrest, rfl, -⟩, hs, he, -⟩ | ⟨hcount, -⟩
  swap
  · simp at hcount
  have hcount : processors.count .inMemoryEventStorage = 0 := by simpa using hcount
  obtain ⟨hes, rfl⟩ := EventDispatcher.process_ok hr
  refine hD.dispatching { s.world.storages with eventStorage } hc hp hD.snapshots ?_
    (fun commit hmem => ?_) ⟨rfl, (List.suffix_cons ..).trans hsuf, hne, aggregate, applied, hi,
      hcmd, .inr ⟨hcount, he.syncedIf hs hst, fun S hS => ?_⟩⟩
  · rw [List.flatMap_append, List.flatMap_singleton,
      EventDispatcher.filterMap_envelopes]
    exact hes.trans (congrArg (· ++ rest) hD.log)
  · rcases List.mem_append.1 hmem with hmem | hmem
    · exact hD.commits commit hmem
    · obtain rfl := List.mem_singleton.1 hmem
      refine ⟨hs, he.adds.numbered, he.adds.ofId, ?_⟩
      rwa [EventDispatcher.filterMap_envelopes]
  · rw [List.mem_append, or_self, snapshotEvents_envelopes] at hS
    obtain ⟨hS, ht⟩ := List.mem_filter.1 hS
    rw [he.adds.id]
    exact ⟨hst.storedSnapshot he.adds.numbered (hrest.subset hS) ht,
      he.adds.ofId S (hrest.subset hS)⟩

/-- One operation of a dispatch goes by, if the batch is in the stream once a snapshot of it is
saved. -/
theorem dispatches {awaits awaits' : Dispatching I V}
    {snapshotStorage : InMemorySnapshotStorage I V} (hD : Data known H stream s)
    (hc : s.calls c = some call) (hp : call.phase = .dispatch attempt events flag awaits)
    (hst : (Phase.dispatch attempt events flag awaits').ahead ≠ [] →
      StandsAt stream attempt.start.id attempt.start.version events)
    (hd : Dispatches s.world.storages awaits snapshotStorage awaits') :
    Data known H stream ((s.setWorld (s.world.setSnapshotStorage snapshotStorage)).goOn c call
      (.dispatch attempt events flag awaits')) := by
  have hok := hD.kept.calls c call hc
  simp only [CallOK, hp] at hok
  obtain ⟨rfl, hok⟩ := hok
  have hgoes : ∀ {storage awaits'},
      (∀ id S, storage.snapshots id = some S → SnapshotOK H stream id S) →
      CallOK known H stream s.world { call with phase := .dispatch attempt events false awaits' } →
        Data known H stream ((s.setWorld (s.world.setSnapshotStorage storage)).goOn c call
          (.dispatch attempt events false awaits')) := fun hsnap hok =>
    hD.dispatching { s.world.storages with snapshotStorage := _ } hc hp hsnap hD.log hD.commits hok
  cases hd with
  | rejected | notSaved | notDeleted => exact hgoes hD.snapshots ⟨rfl, trivial⟩
  | deletes hdel =>
    exact hgoes (fun id S hS => hD.snapshots id S
      (InMemorySnapshotStorage.deleteAggregateSnapshot_snapshots hdel hS)) ⟨rfl, trivial⟩
  | starts =>
    obtain ⟨hsuf, hne, aggregate, applied, hi, hcmd, ht⟩ := hok
    refine hgoes hD.snapshots ⟨rfl, hsuf, hne, aggregate, applied, hi, hcmd, ?_⟩
    simpa only [List.count_cons, reduceCtorEq, beq_iff_eq, if_false, Nat.add_zero] using ht
  | saved =>
    obtain ⟨hsuf, hne, aggregate, applied, hi, hcmd, ht⟩ := hok
    refine hgoes hD.snapshots ⟨rfl, (List.suffix_cons ..).trans hsuf, hne, aggregate, applied, hi,
      hcmd, ht.imp ?_ ?_⟩
    · rintro ⟨h1, ⟨rest, hrest, rfl, -⟩, h2⟩
      rw [snapshotEvents_withoutSnapshots]
      refine ⟨h1, ⟨_, .inr ⟨hsuf.subset List.mem_cons_self, rfl⟩, ?_, List.nil_suffix⟩, h2⟩
      rw [withoutSnapshots_envelopes, hrest.without]
    · rintro ⟨h1, h2, -⟩
      exact ⟨h1, h2, fun S hS => by simp [snapshotEvents_withoutSnapshots] at hS⟩
  | @saves processors data event todo storage hsave =>
    obtain ⟨hsuf, hne, aggregate, applied, hi, hcmd, ht⟩ := hok
    have hsp : .inMemorySnapshotStorage ∈ H.pipeline := hsuf.subset List.mem_cons_self
    have hst' : .inMemoryEventStorage ∈ processors → ∀ rest, Carries H events rest →
        event :: todo <:+ rest.filter (isSnapshotEvent ·) →
          StandsAt stream attempt.start.id attempt.start.version events := by
      intro hES rest hrest htodo
      have hlt : todo.length < (events.filter (isSnapshotEvent ·)).length :=
        Nat.lt_of_lt_of_le (Nat.lt_of_succ_le htodo.length_le)
          (hrest.sublist.filter _).length_le
      exact hst (List.ne_nil_of_mem (mem_ahead.2 ⟨⟨hES, hlt⟩, List.head_mem hne⟩))
    -- the snapshot is one of the stream's
    have hevent : ∃ id, event.aggregateId = some id ∧ StoredSnapshot stream id event
        ∧ (.inMemoryEventStorage ∈ processors → id = attempt.start.id) := by
      rcases ht with ⟨h1, ⟨rest, hrest, -, htodo⟩, -, he, -⟩ | ⟨h1, -, h3⟩
      · have hES : .inMemoryEventStorage ∈ processors := List.count_pos_iff.1 (h1 ▸ Nat.one_pos)
        obtain ⟨hmem, htype⟩ := List.mem_filter.1 (htodo.subset List.mem_cons_self)
        exact ⟨attempt.start.id, he.adds.ofId event (hrest.subset hmem),
          (hst' hES rest hrest htodo).storedSnapshot he.adds.numbered (hrest.subset hmem) htype,
          fun _ => rfl⟩
      · obtain ⟨hS, hid⟩ := h3 event (List.mem_append_left _ List.mem_cons_self)
        exact ⟨aggregate.id, hid, hS, fun hES => absurd hES (List.count_eq_zero.1 h1)⟩
    obtain ⟨id, hid, hstored, hstart⟩ := hevent
    rw [InMemorySnapshotStorage.saveAggregateSnapshot_eq _ hid] at hsave
    split_ifs at hsave with htruthy
    obtain rfl := Except.ok.inj hsave
    refine hgoes (fun id' S hS => ?_) ⟨rfl, hsuf, hne, aggregate, applied, hi, hcmd, ht.imp ?_ ?_⟩
    · by_cases hid' : id' = id
      · obtain rfl : event = S := by simpa [hid'] using hS
        exact ⟨hsp, hid' ▸ hstored⟩
      · exact hD.snapshots id' S (by simpa [hid'] using hS)
    · rintro ⟨h1, ⟨rest, hrest, hdata, htodo⟩, h2, h3, -⟩
      have hES : .inMemoryEventStorage ∈ processors := List.count_pos_iff.1 (h1 ▸ Nat.one_pos)
      exact ⟨h1, ⟨rest, hrest, hdata, (List.suffix_cons ..).trans htodo⟩, h2, h3, fun _ =>
        ⟨hstart hES ▸ htruthy, hst' hES rest hrest htodo⟩⟩
    · rintro ⟨h1, h2, h3⟩
      exact ⟨h1, h2, fun S hS => h3 S (List.mem_cons_of_mem _ hS)⟩

end Data

variable (stream) in
/-- What was committed comes first in the stream, the rest of it is on its way, and the batches that
are committed or on their way are in it. -/
structure Covered (s : Sys I V σ) : Prop where
  committed : ∀ id, stored (s.commits.flatMap (·.emitted)) id <+: stored stream id
  covers : ∀ e ∈ stream, e ∈ s.commits.flatMap (·.emitted) ∨ ∃ c, e ∈ s.ahead c
  commits : ∀ commit ∈ s.commits,
    StandsAt stream commit.attempt.start.id commit.attempt.start.version commit.emitted
  ahead : ∀ c call attempt events flag awaits, s.calls c = some call →
    call.phase = .dispatch attempt events flag awaits → call.phase.ahead ≠ [] →
      StandsAt stream attempt.start.id attempt.start.version events

/-- What is stored is what was emitted, with snapshots left out. -/
theorem Data.log_thinned (hD : Data known H stream s) (id : I) :
    Thinned (fun e => .inMemorySnapshotStorage ∈ H.pipeline ∧ e.type = SNAPSHOT_EVENT_TYPE)
      (stored (s.commits.flatMap (·.emitted)) id) (stored s.log id) := by
  rw [hD.log]
  exact (Thinned.flatMap fun commit hc => (hD.commits commit hc).carries.thinned).filter _

/-- An instance restored from the first of the stream's events, where the storage has them with
snapshots left out, is synced with them. -/
theorem Data.restored (hD : Data known H stream s) (hS : Shape H s)
    (hT : .inMemorySnapshotStorage ∈ H.pipeline → H.aggregateType.RestoresSnapshots)
    (hcommitted : ∀ id, stored (s.commits.flatMap (·.emitted)) id <+: stored stream id)
    {ref : Ref I} {id : I} {snapshot : Option (Event I V)} {aggregate : Aggregate I V σ}
    {applied : List (Event I V)} (hi : s.world.instances ref = some (.restoring id snapshot))
    (ha : H.aggregateType.mutateAll (H.aggregateType.create id)
      (H.aggregateType.getAggregateEvents s.log id snapshot) = some aggregate) :
    Data known H stream (s.setWorld (s.world.setInstance ref (.ready aggregate applied))) := by
  have hth := hD.log_thinned id
  rw [List.prefix_iff_eq_take.1 (hcommitted id)] at hth
  obtain ⟨rfl, -, hcmd, hreads⟩ := restore_reads (hD.numbered id) hth
    (fun S hS => (hD.restoring ref id snapshot hi S hS).2) ha
  have htaken : known → .inMemorySnapshotStorage ∈ H.pipeline →
      H.aggregateType.RestoresSnapshots ∧ H.aggregateType.TakenIn stream aggregate.id :=
    fun hk hp => ⟨hT hp, hD.taken hk hp _⟩
  refine hD.setInstance hS hi ⟨⟨hreads.1, fun hk => hreads.synced (fun e he => ?_) fun hne => ?_⟩,
    hcmd⟩ (by simp)
  · exact ⟨he.2, htaken hk he.1⟩
  · obtain ⟨S, hS⟩ := Option.ne_none_iff_exists'.1 hne
    exact htaken hk (hD.restoring ref _ snapshot hi S hS).1

/-- A step leaves the stream as it is, if the batches it stores or saves snapshots of are in it. -/
theorem Effect.data {a : Action I V} (hE : H.pipeline.count .inMemoryEventStorage = 1)
    (hT : .inMemorySnapshotStorage ∈ H.pipeline → H.aggregateType.RestoresSnapshots)
    (hD : Data known H stream s) (hS : Shape H s) (hN : NeverIgnores s a)
    (hR : known → Regular s a) (hM : MakesSnapshots H s a) (hC : Covered stream s')
    (h : Effect H s a s') : Data known H stream s' := by
  cases h with
  | execute hc => exact hD.execute hS hc
  | acquire hc _ hp _ => exact hD.setLock _ hc hp
  | lease hc hp => exact hD.getAggregate hS hc hp rfl rfl
  | restored hi ha => exact hD.restored hS hT hC.committed hi ha
  | failed hi => exact hD.setInstance hS hi trivial (by simp)
  | notHandled hc _ => exact hD.throwFrom hS hc
  | notRestored hc hp =>
    refine hD.finish fun callx r hx hw => ?_
    obtain rfl := Option.some.inj (hc.symm.trans hx)
    simp [hp, Phase.works] at hw
  | @handled c call ref aggregate applied hc hp hi hcmd =>
    have hok := hD.kept.calls c call hc
    simp only [CallOK, hp] at hok
    refine hD.write hS hc (by simp [hp, Phase.ref]) ?_ (.inl rfl)
    refine ⟨_, _, Function.update_self .., rfl, (hok _ hi).1, [], ?_, fun _ => ?_, fun _ _ => ?_⟩
    · exact .refl rfl rfl rfl
    · exact .refl rfl rfl rfl rfl
    · exact taken_nil _
  | @called _ c call attempt emitThrew returned method _ _ _ hc hp hi ha hm =>
    have hok := hD.kept.calls _ _ hc
    simp only [CallOK, hp, hi, Option.some.injEq, Instance.ready.injEq] at hok
    obtain ⟨_, _, ⟨rfl, rfl⟩, ho, hs, events, he⟩ := hok
    have hret : known ∧ (emitThrew || !returned) = false → returned = true := by simp
    obtain ⟨events', he'⟩ := callMethod_emits (H := H) hret (fun type payload hmethod hsp => by
      subst hmethod ha
      exact hM hsp) hm
    refine hD.write hS hc (by simp [hp, Phase.ref]) ?_ (.inl rfl)
    exact ⟨_, _, Function.update_self .., ho, hs, _,
      (he.of_imp fun hk => ⟨hk.1, (Bool.or_eq_false_iff.1 hk.2).1⟩).trans he'⟩
  | threw hc hp hi _ => exact hD.threw hS hc hp (by simp [hi])
  | @returned c call attempt emitThrew _ _ _ _ _ hc hp hi ha _ hs =>
    have hk : known → emitThrew = false := fun hk => by
      simpa [Regular, hc, hp, Phase.emitThrew] using hR hk
    rcases hs _ rfl with ⟨hev, rfl⟩ | ⟨hev, rfl⟩
    · exact (hD.returned hS hE hc hp hk hi ha).1 hev
    · exact (hD.returned hS hE hc hp hk hi ha).2 hev
  | committed hc hp hr =>
    exact hD.commit hc hp hr (hC.commits _ (List.mem_append_right _ List.mem_cons_self))
  | dispatching hc hp hd =>
    refine hD.dispatches hc hp (fun hne => ?_) hd
    exact hC.ahead _ _ _ _ _ _ (Sys.setCall_calls_self ..) rfl hne
  | dispatched hc hp ha =>
    have hok := hD.kept.calls _ _ hc
    simp only [CallOK, hp] at hok
    obtain ⟨rfl, hok⟩ := hok
    obtain ⟨data, rfl⟩ := ha.resolve_right fun h => Bool.false_ne_true h.1
    obtain ⟨-, -, aggregate, applied, hi, hcmd, ⟨h1, -⟩ | ⟨-, hsync, -⟩⟩ := hok
    · simp at h1
    · refine hD.finish fun callx r hx hw i hi' => ?_
      obtain rfl := Option.some.inj (hc.symm.trans hx)
      simp only [hp, Phase.works] at hw
      obtain rfl := Option.some.inj (hi.symm.trans (hw.1 ▸ hi'))
      exact ⟨hsync, hcmd⟩
  | @settled c call _ _ _ _ _ hc hp hs =>
    have hl : call.phase.leased := by simp [hp, Phase.leased]
    rcases hs with ⟨-, rfl⟩ | ⟨-, rfl⟩ | ⟨rfl, -, -⟩
    · exact hD.throwFrom hS hc
    · rw [← getAggregate_setCall H _ c _ { call with phase := .acquiring .acquired }]
      exact (hD.reset hS hc).getAggregate (hS.reset hc hl) (Sys.setCall_calls_self ..) rfl rfl rfl
    · exact absurd rfl hN
  | append => exact absurd hN not_false

end CommandHandlers

end NodeCqrs
