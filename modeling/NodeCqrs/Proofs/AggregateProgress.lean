import NodeCqrs.Proofs.Microtasks

/-!
# No call of a command handler waits for ever

A call that has its lock can go on to its end (`leased_settles`), as what it goes on with is there
(`Backed`). A lock that is held is held by a call, and who awaits a lock awaits a holder of it or
has been woken (`Locks`). So each call under way can end, whatever has happened so far
(`execute_ends`).
-/

namespace NodeCqrs

namespace CommandHandlers

open Microtasks (lockUse Same Finishes Acquires Leased)

variable {I V σ : Type} [DecidableEq I] [Truthy I]

/-! ### What calls go on with is there -/

/-- What the call goes on with is there: an instance, which a handler works on once it is ready. -/
def Stands (w : World I V σ) (call : Call I V σ) : Prop :=
  match call.phase with
  | .acquiring _ => aggregateId call ≠ none
  | .aggregate ref => ∀ r, ref = some r → w.instances r ≠ none
  | .handler attempt _ => ∃ aggregate applied,
    w.instances attempt.ref = some (.ready aggregate applied)
  | .dispatch .. => True

/-- There is an instance for each cache entry, and for each call what it goes on with. -/
structure Backed (s : Sys I V σ) : Prop where
  entries : ∀ h id r, (s.cache h).entries id = some r → s.world.instances r ≠ none
  calls : ∀ c call, s.calls c = some call → Stands s.world call

variable {H : CommandHandlers I V σ} {s s' t : Sys I V σ} {c : ℕ} {call : Call I V σ}

def Fresh (w : World I V σ) : Prop := ∀ r, w.instances r ≠ none → r.serial < w.nextRef

/-- No instance is lost, and one that is ready stays so. -/
structure Grows (w w' : World I V σ) : Prop where
  made : ∀ r, w.instances r ≠ none → w'.instances r ≠ none
  ready : ∀ r aggregate applied, w.instances r = some (.ready aggregate applied) →
    ∃ aggregate' applied', w'.instances r = some (.ready aggregate' applied')

omit [DecidableEq I] [Truthy I] in
theorem Grows.refl (w : World I V σ) : Grows w w := ⟨fun _ h => h, fun _ _ _ h => ⟨_, _, h⟩⟩

omit [Truthy I] in
theorem Grows.setInstance {w : World I V σ} {r : Ref I} {i : Instance I V σ}
    (h : ∀ aggregate applied, w.instances r = some (.ready aggregate applied) →
      ∃ aggregate' applied', i = .ready aggregate' applied') : Grows w (w.setInstance r i) := by
  refine ⟨fun r' hr' => ?_, fun r' aggregate applied hr' => ?_⟩
  · by_cases hrr : r' = r
    · simp [World.setInstance, hrr]
    · simpa [World.setInstance, hrr] using hr'
  · by_cases hrr : r' = r
    · obtain ⟨aggregate', applied', rfl⟩ := h aggregate applied (hrr ▸ hr')
      exact ⟨aggregate', applied', by simp [World.setInstance, hrr]⟩
    · exact ⟨aggregate, applied, by simpa [World.setInstance, hrr] using hr'⟩

omit [Truthy I] in
/-- A new instance takes no other's place. -/
theorem Grows.make {w : World I V σ} (hF : Fresh w) (o : Owner I) (i : Instance I V σ) :
    Grows w (w.make o i).1 := by
  have hfresh : w.instances ⟨o, w.nextRef⟩ = none := by
    by_contra hne
    exact absurd (hF _ hne) (Nat.lt_irrefl _)
  obtain ⟨h1, h2⟩ := Grows.setInstance (w := w) (r := ⟨o, w.nextRef⟩) (i := i) (by simp [hfresh])
  exact ⟨h1, h2⟩

omit [DecidableEq I] in
theorem Stands.grows {w w' : World I V σ} (h : Stands w call) (hw : Grows w w') :
    Stands w' call := by
  unfold Stands at h ⊢
  split at h
  · exact h
  · exact fun r hr => hw.made r (h r hr)
  · obtain ⟨aggregate, applied, hi⟩ := h
    exact hw.ready _ _ _ hi
  · trivial

omit [DecidableEq I] in
theorem Backed.of_grows (hB : Backed s) (hw : Grows s.world t.world)
    (he : ∀ h id r, (t.cache h).entries id = some r →
      (s.cache h).entries id = some r ∨ t.world.instances r ≠ none)
    (hc : ∀ c call, t.calls c = some call → s.calls c = some call ∨ Stands t.world call) :
    Backed t := by
  refine ⟨fun h id r hr => ?_, fun c call hcall => ?_⟩
  · rcases he h id r hr with hold | hnew
    · exact hw.made r (hB.entries h id r hold)
    · exact hnew
  · rcases hc c call hcall with hold | hnew
    · exact (hB.calls c call hold).grows hw
    · exact hnew

omit [DecidableEq I] in
theorem Backed.setWorld (hB : Backed s) {w : World I V σ} (hw : Grows s.world w) :
    Backed (s.setWorld w) :=
  hB.of_grows hw (fun _ _ _ hr => .inl hr) fun _ _ hc => .inl hc

omit [DecidableEq I] in
theorem Backed.setCall (hB : Backed s) (hcall : Stands s.world call) :
    Backed (s.setCall c call) := by
  refine hB.of_grows (.refl _) (fun _ _ _ hr => .inl hr) fun x callx hx => ?_
  by_cases hxc : x = c
  · obtain rfl : call = callx := by simpa [hxc] using hx
    exact .inr hcall
  · exact .inl (by simpa [hxc] using hx)

omit [DecidableEq I] in
theorem Backed.setLock (hB : Backed s) (h : ℕ) (lock : Lock) : Backed (s.setLock h lock) :=
  hB.of_grows (.refl _) (fun _ _ _ hr => .inl (by simpa using hr)) fun _ _ hc => .inl hc

theorem Backed.resetCacheEntry (hB : Backed s) : Backed (resetCacheEntry s call) := by
  refine hB.of_grows ?_ (fun h id r hr => .inl (entries_of_reset s call h id hr).1)
    fun x callx hx => .inl (by simpa using hx)
  rw [resetCacheEntry_world]
  exact .refl _

theorem Backed.finish (hB : Backed s) : Backed (H.finish s c call) := by
  refine hB.of_grows ?_ (fun h id r hr => .inl (entries_of_finish H s c call h id hr))
    fun x callx hx => .inl ?_
  · rw [finish_world]
    exact .refl _
  · by_cases hxc : x = c
    · simp [hxc] at hx
    · simpa [hxc] using hx

/-- `#aggregatesCache.get` -/
theorem Backed.getCacheEntry (hB : Backed s) (hF : Fresh s.world) (h : ℕ) (id : I) :
    Backed (getCacheEntry s h id).1 := by
  rcases hf : (s.cache h).factories id with _ | f
  · rw [getCacheEntry_eq hf]
    exact hB
  · rw [getCacheEntry_of_factory hf]
    refine (hB.setWorld (w := (s.world.restoreAggregate h f).1) (.make hF _ _)).of_grows (.refl _)
      (fun h' id' r hr => ?_) fun _ _ hc => .inl hc
    by_cases hk : h' = h ∧ id' = id
    · obtain ⟨rfl, rfl⟩ := hk
      obtain rfl : _ = r := by simpa using hr
      refine .inr ?_
      simp [World.restoreAggregate, World.make, World.setInstance]
    · refine .inl ?_
      rcases not_and_or.1 hk with hne | hne
      · simpa [hne] using hr
      · by_cases hh : h' = h
        · subst hh
          simpa [hne] using hr
        · simpa [hh] using hr

theorem Backed.getAggregate (hB : Backed s) (hF : Fresh s.world) :
    Backed (H.getAggregate s c call) := by
  unfold CommandHandlers.getAggregate
  split
  · rename_i id hid
    have hB' := hB.getCacheEntry hF call.handler id
    refine hB'.setCall fun r hr => hB'.entries call.handler id r ?_
    rw [getCacheEntry_ref]
    exact hr
  · have hgrows := Grows.make (w := s.world.setEventStorage
      s.world.storages.eventStorage.getNewId.1) hF (.call c)
      (.ready (H.aggregateType.create (H.newId s.world.storages.eventStorage.getNewId.2)) [])
    have hB' := hB.setWorld (w := s.world.setEventStorage s.world.storages.eventStorage.getNewId.1)
      ⟨fun _ h => h, fun _ _ _ h => ⟨_, _, h⟩⟩
    refine (hB'.setWorld hgrows).setCall ?_
    intro r hr
    obtain rfl := Option.some.inj hr
    exact ne_of_eq_of_ne (Function.update_self ..) (Option.some_ne_none _)

theorem Backed.allocateCacheEntry (hB : Backed s) (hF : Fresh s.world) (h : ℕ) (id : I) :
    Backed (allocateCacheEntry s h id) := by
  have hB' : Backed (s.setCache h ((s.cache h).use id id)) := by
    refine hB.of_grows (.refl _) (fun h' id' r hr => .inl ?_) fun _ _ hc => .inl hc
    by_cases hh : h' = h
    · subst hh
      simpa [MapAssertable.use_entries] using hr
    · simpa [hh] using hr
  rw [allocateCacheEntry_eq]
  exact hB'.getCacheEntry hF h id

theorem Backed.execute (hB : Backed s) (hF : Fresh s.world) {h : ℕ} {cmd : Command I V} :
    Backed (H.execute s c h cmd) := by
  simp only [CommandHandlers.execute]
  split
  · exact hB.getAggregate hF
  · rename_i id hid
    have hB' := hB.allocateCacheEntry hF h id
    exact (hB'.setLock _ _).setCall (ne_of_eq_of_ne hid (Option.some_ne_none id))

theorem Effect.backed [Truthy V] {a : Action I V} (hB : Backed s) (hS : Shape H s)
    (h : Effect H s a s') : Backed s' := by
  have ready : ∀ {r : Ref I} {aggregate : Aggregate I V σ} {applied : List (Event I V)},
      Grows s.world (s.world.setInstance r (.ready aggregate applied)) :=
    .setInstance fun _ _ _ => ⟨_, _, rfl⟩
  cases h with
  | execute hc => exact hB.execute hS.fresh
  | @acquire c call id awaits awaits' lock hc hid hp hr =>
    exact (hB.setLock _ _).setCall (ne_of_eq_of_ne hid (Option.some_ne_none id))
  | lease hc hp => exact hB.getAggregate hS.fresh
  | restored hi _ => exact hB.setWorld ready
  | failed hi => exact hB.setWorld (.setInstance (by simp [hi]))
  | notHandled hc hp => exact hB.resetCacheEntry.finish
  | notRestored hc hp | dispatched hc hp => exact hB.finish
  | handled hc hp hi _ =>
    exact (hB.setWorld ready).setCall ⟨_, _, Function.update_self ..⟩
  | called hc hp hi _ =>
    exact (hB.setWorld ready).setCall ⟨_, _, Function.update_self ..⟩
  | threw hc hp hi _ => exact (hB.setWorld ready).resetCacheEntry.finish
  | returned hc hp hi _ hs =>
    rcases hs _ rfl with ⟨-, rfl⟩ | ⟨-, rfl⟩
    · exact (hB.setWorld ready).finish
    · exact (hB.setWorld ready).setCall trivial
  | committed hc hp _ =>
    refine Backed.setCall (hB.of_grows ⟨fun _ h => h, fun _ _ _ h => ⟨_, _, h⟩⟩
      (fun _ _ _ hr => .inl hr) fun _ _ hc => .inl hc) trivial
  | @dispatching _ _ _ _ _ _ _ snapshotStorage hc hp _ =>
    exact (hB.setWorld (w := s.world.setSnapshotStorage snapshotStorage)
      ⟨fun _ h => h, fun _ _ _ h => ⟨_, _, h⟩⟩).setCall trivial
  | settled hc hp hs =>
    rcases hs with ⟨-, rfl⟩ | ⟨-, rfl⟩ | ⟨-, -, rfl⟩
    · exact hB.resetCacheEntry.finish
    · exact hB.resetCacheEntry.getAggregate (by rw [resetCacheEntry_world]; exact hS.fresh)
    · exact hB.resetCacheEntry.setCall trivial
  | append => exact hB.setWorld ⟨fun _ h => h, fun _ _ _ h => ⟨_, _, h⟩⟩

/-! ### A call that has its lock -/

section leased

variable [Truthy V] {a : Action I V}

/-- A step of a call under way, where handlers return and no command is tried again. -/
def Continues : Action I V → Prop
  | .acquire _ | .lease _ | .restore _ | .handle _ | .handlerReturns _ false | .process _
  | .settle _ .no => True
  | _ => False

variable (H) in
/-- From one state to the other calls go on until one more has ended. -/
def Settles (s : Sys I V σ) (c : ℕ) (s' : Sys I V σ) : Prop :=
  ∃ l, (∀ a ∈ l, Continues a) ∧ H.machine.run s l = some s'
    ∧ s'.calls = Function.update s.calls c none

theorem Settles.step (h : Settles H t c s') (hst : H.step s a = some t) (ha : Continues a)
    (ht : ∀ x, x ≠ c → t.calls x = s.calls x) : Settles H s c s' := by
  obtain ⟨l, hl, hr, hc⟩ := h
  refine ⟨a :: l, ?_, ?_, hc.trans (funext fun x => ?_)⟩
  · rintro b (_ | ⟨_, hb⟩)
    · exact ha
    · exact hl b hb
  · rw [Machine.run_cons, show H.machine.step s a = some t from hst, Option.bind_some, hr]
  · by_cases hx : x = c
    · rw [hx, Function.update_self, Function.update_self]
    · rw [Function.update_of_ne hx, Function.update_of_ne hx, ht x hx]

/-- A step that ends the call. -/
theorem settles_finish (hst : H.step s a = some (H.finish t c call)) (ha : Continues a)
    (ht : t.calls = s.calls) : ∃ s', Settles H s c s' := by
  refine ⟨H.finish t c call, [a], by simpa using ha, ?_, by rw [finish_calls, ht]⟩
  rw [Machine.run_cons, show H.machine.step s a = _ from hst]
  rfl

/-- A step of the call to its next wait, from which it ends. -/
theorem settles_goOn {phase : Phase I V σ} (hst : H.step s a = some (t.goOn c call phase))
    (ha : Continues a) (ht : t.calls = s.calls)
    (h : ∀ {u : Sys I V σ} {call' : Call I V σ}, u.calls c = some call' → call'.phase = phase →
      ∃ s', Settles H u c s') : ∃ s', Settles H s c s' := by
  obtain ⟨s', hs'⟩ := h (u := t.goOn c call phase) (Sys.setCall_calls_self ..) rfl
  refine ⟨s', hs'.step hst ha fun x hx => ?_⟩
  rw [Sys.goOn, Sys.setCall_calls, Function.update_of_ne hx, ht]

variable {attempt : Attempt I V σ} {events : List (Event I V)} {flag : Bool}
  {error : DispatchError I} {todo : List (Event I V)} {processors : List Stage}
  {data : List (Envelope I V)}

theorem reverted_settles (hc : s.calls c = some call)
    (hp : call.phase = .dispatch attempt events flag (.reverting [] error)) :
    ∃ s', Settles H s c s' := by
  cases flag with
  | true =>
    have hst : H.step s (.settle c .no) = some (H.finish s c call) := by
      simp [step, hc, settle, hp]
    exact settles_finish hst trivial rfl
  | false =>
    have hst : H.step s (.settle c .no) = some (H.finish (resetCacheEntry s call) c call) := by
      simp [step, hc, settle, hp]
    exact settles_finish hst trivial (by simp)

theorem reverting_settles : ∀ {todo : List (Event I V)} {error : DispatchError I}
    {s : Sys I V σ} {call : Call I V σ}, s.calls c = some call →
      call.phase = .dispatch attempt events flag (.reverting todo error) → ∃ s', Settles H s c s'
  | [], _, _, _, hc, hp => reverted_settles hc hp
  | event :: todo, error, s, call, hc, hp => by
    rcases hd : s.world.storages.snapshotStorage.deleteAggregateSnapshot event with error' | storage
    · have hst : H.step s (.process c) = some (s.goOn c call
          (.dispatch attempt events flag (.reverting [] error'))) := by
        simp [step, hc, process, hp, hd]
      exact settles_goOn hst trivial rfl reverted_settles
    · have hst : H.step s (.process c) = some ((s.setWorld
          (s.world.setSnapshotStorage storage)).goOn c call
            (.dispatch attempt events flag (.reverting todo error))) := by
        simp [step, hc, process, hp, hd]
      exact settles_goOn hst trivial rfl reverting_settles

/-- Saving the snapshots of a batch goes on to the processors after. -/
theorem saving_settles (hps : ∀ {data : List (Envelope I V)} {s : Sys I V σ} {call : Call I V σ},
      s.calls c = some call →
        call.phase = .dispatch attempt events flag (.processing processors data) →
          ∃ s', Settles H s c s') : ∀ {todo : List (Event I V)} {s : Sys I V σ}
    {call : Call I V σ}, s.calls c = some call →
      call.phase = .dispatch attempt events flag (.saving processors data todo) →
        ∃ s', Settles H s c s'
  | [], s, call, hc, hp => by
    have hst : H.step s (.process c) = some (s.goOn c call (.dispatch attempt events flag
        (.processing processors (InMemorySnapshotStorage.withoutSnapshots data)))) := by
      simp [step, hc, process, hp]
    exact settles_goOn hst trivial rfl hps
  | event :: todo, s, call, hc, hp => by
    rcases hd : s.world.storages.snapshotStorage.saveAggregateSnapshot event with error | storage
    · have hst : H.step s (.process c) = some (s.goOn c call
          (.dispatch attempt events flag (.reverting (H.toRevert data) error))) := by
        simp [step, hc, process, hp, hd]
      exact settles_goOn hst trivial rfl reverting_settles
    · have hst : H.step s (.process c) = some ((s.setWorld
          (s.world.setSnapshotStorage storage)).goOn c call
            (.dispatch attempt events flag (.saving processors data todo))) := by
        simp [step, hc, process, hp, hd]
      exact settles_goOn hst trivial rfl (saving_settles hps)

theorem processing_settles : ∀ {processors : List Stage} {data : List (Envelope I V)}
    {s : Sys I V σ} {call : Call I V σ}, s.calls c = some call →
      call.phase = .dispatch attempt events flag (.processing processors data) →
        ∃ s', Settles H s c s'
  | [], data, s, call, hc, hp => by
    have hst : H.step s (.process c) = some (H.finish s c call) := by
      simp [step, hc, process, hp]
    exact settles_finish hst trivial rfl
  | .inMemoryEventStorage :: processors, data, s, call, hc, hp => by
    rcases hd : s.world.storages.eventStorage.process data with ⟨storage, error | data'⟩
    · have hst : H.step s (.process c) = some (s.goOn c call
          (.dispatch attempt events flag (.reverting (H.toRevert data) error))) := by
        simp [step, hc, process, hp, hd]
      exact settles_goOn hst trivial rfl reverting_settles
    · have hst : H.step s (.process c) = some (((s.setWorld (s.world.setEventStorage
          storage)).addCommit {
            handler := call.handler
            cmd := call.cmd
            attempt
            emitted := events
            events := data.filterMap (·.event) }).goOn c call
              (.dispatch attempt events flag (.processing processors data'))) := by
        simp [step, hc, process, hp, hd]
      exact settles_goOn hst trivial rfl processing_settles
  | .inMemorySnapshotStorage :: processors, data, s, call, hc, hp => by
    have hst : H.step s (.process c) = some (s.goOn c call (.dispatch attempt events flag
        (.saving processors data (InMemorySnapshotStorage.snapshotEvents data)))) := by
      simp [step, hc, process, hp]
    exact settles_goOn hst trivial rfl (saving_settles processing_settles)

theorem dispatch_settles {awaits : Dispatching I V} (hc : s.calls c = some call)
    (hp : call.phase = .dispatch attempt events flag awaits) : ∃ s', Settles H s c s' := by
  cases awaits with
  | processing processors data => exact processing_settles hc hp
  | saving processors data todo => exact saving_settles processing_settles hc hp
  | reverting todo error => exact reverting_settles hc hp

theorem handler_settles {emitThrew : Bool} {aggregate : Aggregate I V σ}
    {applied : List (Event I V)} (hc : s.calls c = some call)
    (hp : call.phase = .handler attempt emitThrew)
    (hi : s.world.instances attempt.ref = some (.ready aggregate applied)) :
    ∃ s', Settles H s c s' := by
  have hu : H.aggregateType.getUncommittedEvents aggregate false attempt.eventsOffset =
      (aggregate, some (aggregate.changes.drop attempt.eventsOffset)) := by
    simp [AggregateType.getUncommittedEvents]
  generalize aggregate.changes.drop attempt.eventsOffset = events at hu
  cases events with
  | nil =>
    have hst : H.step s (.handlerReturns c false) = some (H.finish (s.setWorld
        (s.world.setInstance attempt.ref (.ready { aggregate with command := none }
          (applied ++ aggregate.changes.drop aggregate.changes.length)))) c call) := by
      simp [step, hc, handlerEnds, hp, hi, hu]
    exact settles_finish hst trivial rfl
  | cons event events =>
    have hst : H.step s (.handlerReturns c false) = some ((s.setWorld
        (s.world.setInstance attempt.ref (.ready { aggregate with command := none }
          (applied ++ aggregate.changes.drop aggregate.changes.length)))).goOn c call
            (.dispatch { attempt with shouldTakeSnapshot := false } (event :: events) false
              (H.dispatch (event :: events) false))) := by
      simp [step, hc, handlerEnds, hp, hi, hu]
    exact settles_goOn hst trivial rfl dispatch_settles

/-- A call with an instance, once that is restored. -/
theorem aggregate_settles {ref : Ref I} (hc : s.calls c = some call)
    (hp : call.phase = .aggregate (some ref))
    (hi : (∃ aggregate applied, s.world.instances ref = some (.ready aggregate applied))
      ∨ s.world.instances ref = some .failed) : ∃ s', Settles H s c s' := by
  rcases hi with ⟨aggregate, applied, hi⟩ | hi
  · rcases hh : aggregate.handle call.cmd with _ | ⟨aggregate', eventsOffset⟩
    · have hst : H.step s (.handle c) = some (H.finish (resetCacheEntry s call) c call) := by
        simp [step, hc, handle, hp, hi, hh, throwFrom]
      exact settles_finish hst trivial (by simp)
    · have hst : H.step s (.handle c) = some ((s.setWorld (s.world.setInstance ref
          (.ready aggregate' applied))).goOn c call
            (.handler { ref, start := aggregate, eventsOffset } false)) := by
        simp [step, hc, handle, hp, hi, hh]
      obtain ⟨s', hs'⟩ : ∃ s', Settles H ((s.setWorld (s.world.setInstance ref
          (.ready aggregate' applied))).goOn c call
            (.handler { ref, start := aggregate, eventsOffset } false)) c s' := handler_settles
        (Sys.setCall_calls_self (s.setWorld (s.world.setInstance ref (.ready aggregate' applied)))
          c { call with phase := .handler { ref, start := aggregate, eventsOffset } false }) rfl
        (Function.update_self ..)
      exact ⟨s', hs'.step hst trivial fun x hx => Function.update_of_ne hx ..⟩
  · have hst : H.step s (.handle c) = some (H.finish s c call) := by
      simp [step, hc, handle, hp, hi]
    exact settles_finish hst trivial rfl

theorem restoring_settles {ref : Ref I} {id : I} {snapshot : Option (Event I V)}
    (hc : s.calls c = some call) (hp : call.phase = .aggregate (some ref))
    (hi : s.world.instances ref = some (.restoring id snapshot)) : ∃ s', Settles H s c s' := by
  obtain ⟨w, hw, hready⟩ : ∃ w, H.restore s.world ref = some w
      ∧ ((∃ aggregate applied, w.instances ref = some (.ready aggregate applied))
        ∨ w.instances ref = some .failed) := by
    simp only [CommandHandlers.restore, hi]
    split
    · exact ⟨_, rfl, .inl ⟨_, _, Function.update_self ..⟩⟩
    · exact ⟨_, rfl, .inr (Function.update_self ..)⟩
  have hst : H.step s (.restore ref) = some (s.setWorld w) := by simp [step, hw]
  obtain ⟨s', hs'⟩ := aggregate_settles (H := H) (s := s.setWorld w) hc hp hready
  exact ⟨s', hs'.step hst trivial fun _ _ => rfl⟩

/-- Once what it needs is there, a call with a lease goes on to its end. -/
theorem stands_settles (hc : s.calls c = some call) (hstands : Stands s.world call)
    (hl : ∀ awaits, call.phase ≠ .acquiring awaits) : ∃ s', Settles H s c s' := by
  rcases hp : call.phase with awaits | ref | ⟨attempt, emitThrew⟩ | ⟨attempt, events, flag, awaits⟩
  · exact absurd hp (hl awaits)
  · rw [Stands, hp] at hstands
    rcases ref with _ | ref
    · have hst : H.step s (.handle c) = some (H.throwFrom s c call) := by
        simp [step, hc, handle, hp]
      exact settles_finish hst trivial (by simp)
    · rcases hi : s.world.instances ref with _ | ⟨id, snapshot⟩ | ⟨aggregate, applied⟩ | _
      · exact absurd hi (hstands ref rfl)
      · exact restoring_settles hc hp hi
      · exact aggregate_settles hc hp (.inl ⟨aggregate, applied, hi⟩)
      · exact aggregate_settles hc hp (.inr hi)
  · rw [Stands, hp] at hstands
    obtain ⟨aggregate, applied, hi⟩ := hstands
    exact handler_settles hc hp hi
  · exact dispatch_settles hc hp

end leased

/-! ### Whose locks are held -/

variable (H) in
/-- Each lock that is held is held by a call, and who awaits one awaits what is held or is
resolved. -/
structure Locks (s : Sys I V σ) : Prop where
  named : ∀ h, (s.lock h).Named
  held : ∀ h name d, (s.lock h).namedLocks.lookup name = some d → ∃ c, Leased H s h name c
  waits : ∀ c h name awaits, lockUse H s c = some ⟨h, name, some awaits⟩ →
    awaits = .acquired ∨ ∃ d, awaits = .blockingLock d
      ∧ (d ∈ (s.lock h).resolved ∨ (s.lock h).namedLocks.lookup name = some d)

section locks

variable {h : ℕ} {name : String}

omit [DecidableEq I] in
theorem name_of_use (hname : ∀ id, truthy id → H.lockName id ≠ "") {x : LockUse}
    (hu : lockUse H s c = some x) : x.name ≠ "" := by
  obtain ⟨call, -, hu⟩ := Option.bind_eq_some_iff.1 hu
  obtain ⟨id, hid, rfl⟩ := Option.map_eq_some_iff.1 hu
  exact hname id (Option.filter_eq_some_iff.1 hid).2

omit [DecidableEq I] in
theorem Locks.same (hL : Locks H s) (hS : Same H s t) : Locks H t := by
  refine ⟨fun h => (hS.lock h).symm ▸ hL.named h, fun h name d hd => ?_,
    fun x h name awaits hu => ?_⟩
  · rw [hS.lock] at hd
    obtain ⟨x, hx⟩ := hL.held h name d hd
    exact ⟨x, hx.of_use (hS.uses x).symm⟩
  · rw [hS.uses] at hu
    rw [hS.lock]
    exact hL.waits x h name awaits hu

omit [DecidableEq I] in
theorem Locks.finishes (hL : Locks H s) (hF : Finishes H s t c h name) (hname : name ≠ "") :
    Locks H t := by
  refine ⟨fun h' => ?_, fun h' name' d hd => ?_, fun x h' name' awaits hu => ?_⟩
  · rw [hF.lock]
    split_ifs
    · exact (hL.named h).release hname
    · exact hL.named h'
  · -- the lock is another's, so its holder has not ended
    have hother : (s.lock h').namedLocks.lookup name' = some d ∧ ¬ (h' = h ∧ name' = name) := by
      rw [hF.lock] at hd
      split_ifs at hd with hh
      · rw [Lock.lookup_release _ hname] at hd
        split_ifs at hd with hn
        exact ⟨hh ▸ hd, fun hk => hn hk.2⟩
      · exact ⟨hd, fun hk => hh hk.1⟩
    obtain ⟨x, hx⟩ := hL.held h' name' d hother.1
    refine ⟨x, hx.of_use ?_⟩
    rw [hF.uses, if_neg]
    rintro rfl
    obtain ⟨awaits, -, hu⟩ := hx
    have huse := Option.some.inj (hF.use.symm.trans hu)
    exact hother.2 ⟨(congrArg LockUse.handler huse).symm, (congrArg LockUse.name huse).symm⟩
  · rw [hF.uses] at hu
    split_ifs at hu
    rcases hL.waits x h' name' awaits hu with ha | ⟨d, ha, hd⟩
    · exact .inl ha
    · refine .inr ⟨d, ha, ?_⟩
      rw [hF.lock]
      split_ifs with hh
      · subst hh
        rw [Lock.mem_resolved_release _ hname, Lock.lookup_release _ hname]
        rcases hd with hd | hd
        · exact .inl (.inr hd)
        · by_cases hn : name' = name
          · exact .inl (.inl (hn ▸ hd))
          · exact .inr (by rw [if_neg hn]; exact hd)
      · exact hd

omit [DecidableEq I] in
theorem Locks.acquires (hL : Locks H s) {l : Lock} {awaits : Acquiring}
    (hA : Acquires H s t c h name l awaits) (hname : name ≠ "")
    (hno : ∀ h name, ¬ Leased H s h name c) : Locks H t := by
  have huses : ∀ x, x ≠ c → lockUse H t x = lockUse H s x := fun x hx => by
    rw [hA.uses, if_neg hx]
  have hother : ∀ {x h name}, Leased H s h name x → Leased H t h name x := fun {x h name} hx =>
    hx.of_use (huses x fun he => hno h name (he ▸ hx)).symm
  rcases hA.cases (hL.named h) hname with ⟨d, rfl, hd, hlock⟩ | ⟨rfl, hnone, hlock⟩
  · refine ⟨fun h' => (hlock h').symm ▸ hL.named h', fun h' name' d' hd' => ?_,
      fun x h' name' awaits hu => ?_⟩
    · rw [hlock] at hd'
      obtain ⟨x, hx⟩ := hL.held h' name' d' hd'
      exact ⟨x, hother hx⟩
    · rw [hlock]
      by_cases hx : x = c
      · subst hx
        rw [hA.uses, if_pos rfl] at hu
        obtain ⟨rfl, rfl, ha⟩ := LockUse.mk.inj (Option.some.inj hu)
        exact .inr ⟨d, (Option.some.inj ha).symm, .inr hd⟩
      · exact hL.waits x h' name' awaits ((huses x hx).symm.trans hu)
  · refine ⟨fun h' => ?_, fun h' name' d' hd' => ?_, fun x h' name' awaits hu => ?_⟩
    · rw [hlock]
      split_ifs
      · exact (hL.named h).take hname
      · exact hL.named h'
    · by_cases hk : h' = h ∧ name' = name
      · obtain ⟨rfl, rfl⟩ := hk
        exact ⟨c, _, .inr rfl, by rw [hA.uses, if_pos rfl]⟩
      · have hold : (s.lock h').namedLocks.lookup name' = some d' := by
          rw [hlock] at hd'
          split_ifs at hd' with hh
          · rw [Lock.lookup_take _ hname, if_neg fun hn => hk ⟨hh, hn⟩] at hd'
            exact hh ▸ hd'
          · exact hd'
        obtain ⟨x, hx⟩ := hL.held h' name' d' hold
        exact ⟨x, hother hx⟩
    · by_cases hx : x = c
      · subst hx
        rw [hA.uses, if_pos rfl] at hu
        obtain ⟨-, -, ha⟩ := LockUse.mk.inj (Option.some.inj hu)
        exact .inl (Option.some.inj ha).symm
      · rcases hL.waits x h' name' awaits ((huses x hx).symm.trans hu) with ha | ⟨d, ha, hd⟩
        · exact .inl ha
        · refine .inr ⟨d, ha, ?_⟩
          rw [hlock]
          split_ifs with hh
          · subst hh
            rw [Lock.lookup_take _ hname]
            rcases hd with hd | hd
            · exact .inl (by simpa [Lock.take, hname] using hd)
            · split_ifs with hn
              · subst hn
                exact absurd (hnone.symm.trans hd) (by simp)
              · exact .inr hd
          · exact hd

omit [DecidableEq I] in
/-- The call whose `acquire` has returned is past it. -/
theorem Locks.leases (hL : Locks H s) (hu : lockUse H s c = some ⟨h, name, some .acquired⟩)
    (huses : ∀ c', lockUse H t c' = if c' = c then some ⟨h, name, none⟩ else lockUse H s c')
    (hlock : ∀ h', t.lock h' = s.lock h') : Locks H t := by
  refine ⟨fun h' => (hlock h').symm ▸ hL.named h', fun h' name' d hd => ?_,
    fun x h' name' awaits hx => ?_⟩
  · rw [hlock] at hd
    obtain ⟨x, hx⟩ := hL.held h' name' d hd
    by_cases hxc : x = c
    · subst hxc
      obtain ⟨awaits, -, hx⟩ := hx
      obtain ⟨rfl, rfl, -⟩ := LockUse.mk.inj (Option.some.inj (hu.symm.trans hx))
      exact ⟨x, none, .inl rfl, by rw [huses, if_pos rfl]⟩
    · exact ⟨x, hx.of_use (by rw [huses, if_neg hxc])⟩
  · rw [huses] at hx
    split_ifs at hx
    · cases hx
    · rw [hlock]
      exact hL.waits x h' name' awaits hx

theorem acquire_waits [Truthy V] (hL : Locks H s) (hst : H.step s (.acquire c) = some t) :
    ∃ h name d, lockUse H s c = some ⟨h, name, some (.blockingLock d)⟩ := by
  obtain ⟨call, hc, hst⟩ := Option.bind_eq_some_iff.1 hst
  simp only [CommandHandlers.acquire] at hst
  split at hst
  · rename_i awaits id hp hid
    have hu : lockUse H s c = some ⟨call.handler, H.lockName id, some awaits⟩ := by
      simp [lockUse, hc, Microtasks.useOf, hid, hp, Phase.awaits]
    rcases hL.waits c _ _ awaits hu with rfl | ⟨d, rfl, -⟩
    · simp [Lock.resume] at hst
    · exact ⟨_, _, d, hu⟩
  · cases hst

theorem lease_uses_or_same [Truthy V] (hst : H.step s (.lease c) = some t) :
    Same H s t ∨ ∃ h name, lockUse H s c = some ⟨h, name, some .acquired⟩ := by
  obtain ⟨call, hc, hst⟩ := Option.bind_eq_some_iff.1 hst
  simp only [lease] at hst
  split at hst
  · rename_i hp
    obtain rfl := Option.some.inj hst
    rcases hid : aggregateId call with _ | id
    · refine .inl ⟨fun x => ?_, fun h => Microtasks.getAggregate_lock ..⟩
      rw [Microtasks.lockUse_getAggregate, Microtasks.useOf, hid]
      split_ifs with hx
      · simp [hx, lockUse, hc, Microtasks.useOf, hid]
      · rfl
    · exact .inr ⟨call.handler, H.lockName id, by
        simp [lockUse, hc, Microtasks.useOf, hid, hp, Phase.awaits]⟩
  · cases hst

/-- A step keeps what holds of the locks, where no aggregate's lock has the empty name. -/
theorem Locks.step [Truthy V] {a : Action I V} (hname : ∀ id, truthy id → H.lockName id ≠ "")
    (hL : Locks H s) (hst : H.step s a = some t) : Locks H t := by
  cases a with
  | execute c h cmd =>
    have hcmd : ∀ name, Microtasks.lockName H cmd = some name → name ≠ "" := by
      rintro _ hn
      obtain ⟨id, hid, rfl⟩ := Option.map_eq_some_iff.1 hn
      exact hname id (Option.filter_eq_some_iff.1 hid).2
    obtain ⟨hc, ⟨hS, -⟩ | ⟨name, l, awaits, hn, hA⟩⟩ :=
      Microtasks.execute_acquires hst (hL.named h) hcmd
    · exact hL.same hS
    · refine hL.acquires hA (hcmd name hn) ?_
      rintro h name ⟨awaits, -, hu⟩
      simp [lockUse, hc] at hu
  | acquire c =>
    obtain ⟨h, name, d, hu⟩ := acquire_waits hL hst
    obtain ⟨l, awaits, hA⟩ := Microtasks.acquire_acquires hst hu
    refine hL.acquires hA (name_of_use hname hu) ?_
    rintro h' name' ⟨awaits', ha, hu'⟩
    obtain ⟨-, -, rfl⟩ := LockUse.mk.inj (Option.some.inj (hu.symm.trans hu'))
    simp at ha
  | lease c =>
    rcases lease_uses_or_same hst with hS | ⟨h, name, hu⟩
    · exact hL.same hS
    · obtain ⟨huses, hlock⟩ := Microtasks.lease_uses hst hu
      exact hL.leases hu huses hlock
  | _ =>
    rcases Microtasks.keeps_of_effect (step_effect hst) rfl (by simp) with hS | ⟨c, h, name, hF⟩
    · exact hL.same hS
    · exact hL.finishes hF (name_of_use hname hF.use)

end locks

/-! ### Every call can end -/

variable [Truthy V]

variable (H) in
/-- What holds all along a run, where no aggregate's lock has the empty name. -/
structure Sound (s : Sys I V σ) : Prop where
  shape : Shape H s
  backed : Backed s
  locks : Locks H s

omit [DecidableEq I] [Truthy V] in
theorem sound_init : Sound H ({} : Sys I V σ) where
  shape := shape_init
  backed := ⟨fun _ _ _ h => (by cases h), fun _ _ h => (by cases h)⟩
  locks := ⟨fun _ => Lock.Named.empty, fun _ _ _ h => (by cases h), fun _ _ _ _ h => (by cases h)⟩

theorem Sound.step {a : Action I V} (hname : ∀ id, truthy id → H.lockName id ≠ "")
    (hs : Sound H s) (hst : H.step s a = some t) : Sound H t :=
  ⟨(step_effect hst).shape hs.shape, (step_effect hst).backed hs.backed hs.shape,
    hs.locks.step hname hst⟩

/-- A call that has its lock can end, whatever the others do. -/
theorem leased_settles (hs : Sound H s) (hc : s.calls c = some call) (hl : call.phase.leased) :
    ∃ s', Settles H s c s' := by
  by_cases hp : call.phase = .acquiring .acquired
  · have hst : H.step s (.lease c) = some (H.getAggregate s c call) := by
      simp [CommandHandlers.step, hc, lease, hp]
    obtain ⟨ref, hcalls⟩ := getAggregate_calls H s c call
    have hc' : (H.getAggregate s c call).calls c = some { call with phase := .aggregate ref } := by
      rw [hcalls, Function.update_self]
    obtain ⟨s', hs'⟩ := stands_settles (H := H) hc'
      ((hs.backed.getAggregate hs.shape.fresh).calls c _ hc') (by simp)
    exact ⟨s', hs'.step hst trivial fun x hx => by rw [hcalls, Function.update_of_ne hx]⟩
  · refine stands_settles hc (hs.backed.calls c call hc) fun awaits ha => hp ?_
    rw [ha] at hl ⊢
    simpa [Phase.leased] using hl

theorem Sound.run (hname : ∀ id, truthy id → H.lockName id ≠ "") {l : List (Action I V)}
    (hs : Sound H s) (hr : H.machine.run s l = some t) : Sound H t :=
  Machine.run_keeps (I := Sound H) (fun _ _ _ hs hst => hs.step hname hst) hs hr

/-- The lock that the call awaits is free. -/
theorem free_settles (hname : ∀ id, truthy id → H.lockName id ≠ "") (hs : Sound H s) {h d : ℕ}
    {name : String} (hu : lockUse H s c = some ⟨h, name, some (.blockingLock d)⟩)
    (hfree : (s.lock h).namedLocks.lookup name = none) : ∃ s', Settles H s c s' := by
  obtain ⟨call, hc, hcall⟩ := Option.bind_eq_some_iff.1 hu
  obtain ⟨id, hid, hcall⟩ := Option.map_eq_some_iff.1 hcall
  obtain ⟨rfl, rfl, hp⟩ := LockUse.mk.inj hcall
  obtain ⟨awaits, hphase⟩ : ∃ awaits, call.phase = .acquiring awaits := by
    rcases hphase : call.phase with awaits | _ | _ | _
    · exact ⟨awaits, rfl⟩
    all_goals simp [hphase, Phase.awaits] at hp
  obtain rfl : awaits = .blockingLock d := by simpa [hphase, Phase.awaits] using hp
  have hd : d ∈ (s.lock call.handler).resolved := by
    rcases hs.locks.waits c _ _ _ hu with ha | ⟨d', ha, hd | hd⟩
    · cases ha
    · obtain rfl := Acquiring.blockingLock.inj ha
      exact hd
    · exact absurd (hfree.symm.trans hd) (by simp)
  have hst : H.step s (.acquire c) = some ((s.setLock call.handler
      ((s.lock call.handler).take (H.lockName id))).goOn c call (.acquiring .acquired)) := by
    have hn := hname id (Option.filter_eq_some_iff.1 hid).2
    simp [CommandHandlers.step, hc, CommandHandlers.acquire, hphase, hid, Lock.resume, hd,
      (hs.locks.named call.handler).acquireBlocked hn, hfree]
  obtain ⟨s', hs'⟩ := leased_settles (hs.step hname hst) (Sys.setCall_calls_self ..) rfl
  exact ⟨s', hs'.step hst trivial fun x hx => Function.update_of_ne hx ..⟩

variable (H) in
/-- From one state to the other calls under way go on, until the call and maybe others have
ended. -/
def Ends (s : Sys I V σ) (c : ℕ) (s' : Sys I V σ) : Prop :=
  ∃ l, (∀ a ∈ l, Continues a) ∧ H.machine.run s l = some s' ∧ s'.calls c = none
    ∧ ∀ x, s'.calls x = s.calls x ∨ s'.calls x = none

theorem Settles.ends (h : Settles H s c s') : Ends H s c s' := by
  obtain ⟨l, hl, hr, hc⟩ := h
  refine ⟨l, hl, hr, by rw [hc, Function.update_self], fun x => ?_⟩
  by_cases hx : x = c
  · exact .inr (by rw [hc, hx, Function.update_self])
  · exact .inl (by rw [hc, Function.update_of_ne hx])

/-- Once another has ended. -/
theorem Settles.then_ends {x : ℕ} (h : Settles H s x t) (h' : Settles H t c s') :
    Ends H s c s' := by
  obtain ⟨l, hl, hr, hc⟩ := h
  obtain ⟨l', hl', hr', hc', hcalls⟩ := h'.ends
  refine ⟨l ++ l', ?_, ?_, hc', fun y => ?_⟩
  · simpa [or_imp, forall_and] using ⟨hl, hl'⟩
  · rw [Machine.run_append, hr, Option.bind_some, hr']
  · rcases hcalls y with hy | hy
    · rw [hy, hc]
      by_cases hyx : y = x
      · exact .inr (by rw [hyx, Function.update_self])
      · exact .inl (Function.update_of_ne hyx ..)
    · exact .inr hy

omit [DecidableEq I] [Truthy V] in
theorem call_of_leased {h : ℕ} {name : String} (hl : Leased H s h name c) : ∃ call id,
    s.calls c = some call ∧ call.handler = h ∧ aggregateId call = some id ∧ H.lockName id = name
      ∧ call.phase.leased := by
  obtain ⟨awaits, ha, hu⟩ := hl
  obtain ⟨call, hc, hu⟩ := Option.bind_eq_some_iff.1 hu
  obtain ⟨id, hid, hu⟩ := Option.map_eq_some_iff.1 hu
  obtain ⟨hh, hname, hp⟩ := LockUse.mk.inj hu
  exact ⟨call, id, hc, hh, hid, hname, (Phase.leased_iff _).2 (hp ▸ ha)⟩

omit [DecidableEq I] [Truthy V] in
/-- A lock has one holder. -/
theorem Sound.leased_unique (hs : Sound H s) {h x y : ℕ} {name : String}
    (hx : Leased H s h name x) (hy : Leased H s h name y) : x = y := by
  obtain ⟨callx, idx, hcx, rfl, hidx, rfl, hlx⟩ := call_of_leased hx
  obtain ⟨cally, idy, hcy, hh, hidy, hn, hly⟩ := call_of_leased hy
  exact hs.shape.mutex x y callx cally idx idy hcx hcy hh.symm hidx hidy hn.symm hlx hly

omit [DecidableEq I] [Truthy V] in
/-- A call without a lease awaits who has its lock. -/
theorem Sound.waits (hs : Sound H s) (hc : s.calls c = some call) (hl : ¬ call.phase.leased) :
    ∃ h name d, lockUse H s c = some ⟨h, name, some (.blockingLock d)⟩ := by
  rcases hp : call.phase with awaits | _ | _ | _
  · have hstands := hs.backed.calls c call hc
    rw [Stands, hp] at hstands
    obtain ⟨id, hid⟩ := Option.ne_none_iff_exists'.1 hstands
    have hu : lockUse H s c = some ⟨call.handler, H.lockName id, some awaits⟩ := by
      simp [lockUse, hc, Microtasks.useOf, hid, hp, Phase.awaits]
    rcases hs.locks.waits c _ _ awaits hu with rfl | ⟨d, rfl, -⟩
    · simp [hp, Phase.leased] at hl
    · exact ⟨_, _, d, hu⟩
  all_goals simp [hp, Phase.leased] at hl

/-- Whatever has happened so far, each call under way can end without a new one and without a
command that is tried again: none waits for one that waits for it. -/
theorem execute_ends (hname : ∀ id, truthy id → H.lockName id ≠ "") (hr : H.machine.Reach s)
    (hc : s.calls c = some call) : ∃ s', Ends H s c s' := by
  have hs : Sound H s := hr.invariant (P := Sound H)
    (fun s (h0 : s = {}) => h0 ▸ sound_init) fun _ _ _ hs _ hst => hs.step hname hst
  by_cases hl : call.phase.leased
  · obtain ⟨s', hs'⟩ := leased_settles hs hc hl
    exact ⟨s', hs'.ends⟩
  obtain ⟨h, name, d, hu⟩ := hs.waits hc hl
  rcases hlook : (s.lock h).namedLocks.lookup name with _ | d'
  · obtain ⟨s', hs'⟩ := free_settles hname hs hu hlook
    exact ⟨s', hs'.ends⟩
  · -- the holder goes first, and leaves the lock to no one
    obtain ⟨x, hx⟩ := hs.locks.held h name d' hlook
    obtain ⟨callx, -, hcx, -, -, -, hlx⟩ := call_of_leased hx
    obtain ⟨t, l, hcont, hrun, hcalls⟩ := leased_settles hs hcx hlx
    have ht : Sound H t := hs.run hname hrun
    have huse : ∀ y, y ≠ x → lockUse H t y = lockUse H s y := fun y hy => by
      rw [lockUse, hcalls, Function.update_of_ne hy, lockUse]
    have hne : c ≠ x := by
      rintro rfl
      obtain ⟨awaits, ha, hux⟩ := hx
      obtain ⟨-, -, rfl⟩ := LockUse.mk.inj (Option.some.inj (hu.symm.trans hux))
      simp at ha
    have hfree : (t.lock h).namedLocks.lookup name = none := by
      rcases hlook' : (t.lock h).namedLocks.lookup name with _ | d''
      · rfl
      obtain ⟨y, hy⟩ := ht.locks.held h name d'' hlook'
      by_cases hyx : y = x
      · obtain ⟨cally, -, hcy, -⟩ := call_of_leased hy
        rw [hyx, hcalls, Function.update_self] at hcy
        cases hcy
      · exact absurd (hs.leased_unique (hy.of_use (huse y hyx)) hx) hyx
    obtain ⟨s', hs'⟩ := free_settles hname ht ((huse c hne).trans hu) hfree
    exact ⟨s', Settles.then_ends ⟨l, hcont, hrun, hcalls⟩ hs'⟩

/-- Two calls for one aggregate. -/
def twoCalls : List (Action String ℕ) :=
  let cmd : Command String ℕ := { type := "count", aggregateId := some "a", payload := 0 }
  [.execute 0 0 cmd, .execute 1 0 cmd]

theorem execute_ends_twoCalls : ∃ s, Microtasks.counters.machine.run {} twoCalls = some s
    ∧ (s.calls 1).map (·.phase.leased) = some false ∧ ∃ s', Ends Microtasks.counters s 1 s' := by
  obtain ⟨s, hs, hc⟩ : ∃ s, Microtasks.counters.machine.run {} twoCalls = some s
      ∧ (s.calls 1).map (·.phase.leased) = some false := ⟨_, rfl, rfl⟩
  obtain ⟨call, hcall, -⟩ := Option.map_eq_some_iff.1 hc
  have hname : ∀ id : String, truthy id → Microtasks.counters.lockName id ≠ "" :=
    fun id hid => of_decide_eq_true hid
  exact ⟨s, hs, hc, execute_ends hname (Machine.reach_of_run rfl hs) hcall⟩

end CommandHandlers

end NodeCqrs
