import Mathlib.Data.List.Flatten
import NodeCqrs.Proofs.AggregateEntries
import NodeCqrs.Proofs.Aggregate
import NodeCqrs.Proofs.EventDispatcher

/-!
# What a cached instance has seen

A cached instance no call works on has applied all that commands of its handler committed for its
aggregate (`Seen`), as long as a forced batch is appended before the entry's next instance has read
the events (`ForcedUnread`). So the instance of a call that comes to `handle` has
(`handled_has_seen`).
-/

namespace NodeCqrs

variable {I V σ : Type}

/-- The call appends its batch next, whatever is stored. -/
def Phase.forces : Phase I V σ → Bool
  | .dispatch _ _ true (.processing (.inMemoryEventStorage :: _) _) => true
  | _ => false

/-- Where a batch is in a pipeline of the event storage alone. -/
def Phase.delivers : Phase I V σ → Prop
  | .dispatch _ events flag (.processing processors data) =>
    processors = [.inMemoryEventStorage] ∧ data = EventDispatcher.envelopes events flag
      ∨ processors = []
  | .dispatch _ _ _ (.saving _ _ _) => False
  | _ => True

def Instance.isReady : Instance I V σ → Bool
  | .ready _ _ => true
  | .restoring _ _ | .failed => false

namespace CommandHandlers

variable [DecidableEq I] [Truthy I]

/-- The aggregate a batch's command named. -/
def commitId (commit : Commit I V σ) : Option I := commit.cmd.aggregateId.filter (truthy ·)

variable (H : CommandHandlers I V σ)

/-- The aggregate's events that commands of the handler committed under the aggregate's lock, of the
types its class restores from. -/
def committedEvents (commits : List (Commit I V σ)) (h : ℕ) (id : I) : List (Event I V) :=
  ((commits.filter fun commit => commit.handler = h ∧ commitId commit = some id).flatMap
    (·.events)).filter fun e => e.aggregateId = some id ∧ H.aggregateType.restores e

/-- The instance, once there is one, has applied what was committed. -/
def HasSeen (w : World I V σ) (commits : List (Commit I V σ)) (h : ℕ) (id : I) (r : Ref I) :
    Prop :=
  ∀ aggregate applied, w.instances r = some (.ready aggregate applied) →
    (committedEvents H commits h id).Sublist applied

/-- The instance has applied what was committed, and then what its handler emitted. -/
def HasSeenBefore (w : World I V σ) (commits : List (Commit I V σ)) (h : ℕ) (id : I)
    (r : Ref I) (emitted : Aggregate I V σ → List (Event I V)) : Prop :=
  ∀ aggregate applied, w.instances r = some (.ready aggregate applied) →
    ∃ seen, applied = seen ++ emitted aggregate ∧ (committedEvents H commits h id).Sublist seen

/-- What the instance of a call has seen. -/
def CallSeen (w : World I V σ) (commits : List (Commit I V σ)) (h : ℕ) (id : I) :
    Phase I V σ → Prop
  | .acquiring _ | .aggregate _ => True
  | .handler attempt _ =>
    HasSeenBefore H w commits h id attempt.ref (·.changes.drop attempt.eventsOffset)
      ∧ ∀ aggregate applied, w.instances attempt.ref = some (.ready aggregate applied) →
        attempt.eventsOffset ≤ aggregate.changes.length
  | .dispatch attempt events flag (.processing (_ :: _) _) =>
    flag = false → HasSeenBefore H w commits h id attempt.ref fun _ => events
  | .dispatch attempt _ flag (.processing [] _) =>
    flag = false → HasSeen H w commits h id attempt.ref
  | .dispatch _ _ _ (.saving _ _ _) | .dispatch _ _ _ (.reverting _ _) => True

/-- What a call's phase says of its instance. -/
structure CallKnows (w : World I V σ) (commits : List (Commit I V σ)) (call : Call I V σ) :
    Prop where
  delivers : call.phase.delivers
  ready : ∀ r, call.phase.works r → ∃ i, w.instances r = some i ∧ i.isReady
  seen : ∀ id, aggregateId call = some id → CallSeen H w commits call.handler id call.phase

structure Seen (s : Sys I V σ) : Prop where
  snapshots : ∀ id, s.world.storages.snapshotStorage.snapshots id = none
  restoring : ∀ r id snapshot, s.world.instances r = some (.restoring id snapshot) →
    (∃ h, r.owner = .cache h id) ∧ snapshot = none
  log : (s.commits.flatMap (·.events)).Sublist s.world.storages.eventStorage.events
  kept : Kept (HasSeen H s.world s.commits) (CallKnows H s.world s.commits) s

variable {H} {s : Sys I V σ}

theorem HasSeen.congr {w w' : World I V σ} {commits : List (Commit I V σ)} {h : ℕ} {id : I}
    {r : Ref I} (hi : w'.instances r = w.instances r) (hs : HasSeen H w commits h id r) :
    HasSeen H w' commits h id r := by
  intro aggregate applied h
  exact hs aggregate applied (hi ▸ h)

section write

variable {w : World I V σ} {commits : List (Commit I V σ)} {h : ℕ} {id : I} {r : Ref I}
  {aggregate : Aggregate I V σ} {applied : List (Event I V)}

theorem hasSeen_setInstance :
    HasSeen H (w.setInstance r (.ready aggregate applied)) commits h id r
      ↔ (committedEvents H commits h id).Sublist applied := by
  simp [HasSeen, World.setInstance]

theorem hasSeenBefore_setInstance {emitted : Aggregate I V σ → List (Event I V)} :
    HasSeenBefore H (w.setInstance r (.ready aggregate applied)) commits h id r emitted
      ↔ ∃ seen, applied = seen ++ emitted aggregate ∧ (committedEvents H commits h id).Sublist seen := by
  simp [HasSeenBefore, World.setInstance]

omit [Truthy I] in
theorem offset_setInstance {offset : ℕ} :
    (∀ a l, (w.setInstance r (.ready aggregate applied)).instances r = some (.ready a l) →
      offset ≤ a.changes.length) ↔ offset ≤ aggregate.changes.length := by
  simp [World.setInstance]

omit [Truthy I] in
theorem ready_setInstance :
    ∃ i, (w.setInstance r (.ready aggregate applied)).instances r = some i ∧ i.isReady :=
  ⟨_, Function.update_self .., rfl⟩

end write

theorem CallSeen.congr {w w' : World I V σ} {commits : List (Commit I V σ)} {h : ℕ} {id : I}
    {p : Phase I V σ} (hi : ∀ r, p.works r → w'.instances r = w.instances r)
    (hs : CallSeen H w commits h id p) : CallSeen H w' commits h id p := by
  rcases p with awaits | ref | ⟨attempt, threw⟩ | ⟨attempt, events, flag, awaits⟩
  · trivial
  · trivial
  · simp only [CallSeen, HasSeenBefore, hi attempt.ref rfl] at hs ⊢
    exact hs
  · rcases awaits with ⟨_ | ⟨_, _⟩, data⟩ | _ | _
    · exact fun hf => (hs hf).congr (hi attempt.ref ⟨rfl, hf⟩)
    · intro hf
      have hr := hi attempt.ref ⟨rfl, hf⟩
      simp only [CallSeen, HasSeenBefore, hr] at hs ⊢
      exact hs hf
    · trivial
    · trivial

/-- What a call has to see depends on what was committed for its aggregate. -/
theorem CallSeen.of_committed {w : World I V σ} {commits commits' : List (Commit I V σ)} {h : ℕ}
    {id : I} {p : Phase I V σ}
    (he : committedEvents H commits' h id = committedEvents H commits h id)
    (hs : CallSeen H w commits h id p) : CallSeen H w commits' h id p := by
  rcases p with awaits | ref | ⟨attempt, threw⟩ | ⟨attempt, events, flag, ⟨_ | ⟨_, _⟩, _⟩ | _ | _⟩ <;>
    simp only [CallSeen, HasSeen, HasSeenBefore, he] at hs ⊢ <;> exact hs

theorem CallKnows.congr {w w' : World I V σ} {commits : List (Commit I V σ)} {call : Call I V σ}
    (hi : ∀ r, call.phase.works r → w'.instances r = w.instances r)
    (hk : CallKnows H w commits call) : CallKnows H w' commits call where
  delivers := hk.delivers
  ready r hr := hi r hr ▸ hk.ready r hr
  seen id hid := (hk.seen id hid).congr hi

/-- A call that awaits its lock or its instance knows nothing of it. -/
theorem callKnows_acquiring {w : World I V σ} {commits : List (Commit I V σ)}
    (call : Call I V σ) (awaits : Acquiring) :
    CallKnows H w commits { call with phase := .acquiring awaits } :=
  ⟨trivial, fun _ h => absurd h not_false, fun _ _ => trivial⟩

theorem callKnows_aggregate {w : World I V σ} {commits : List (Commit I V σ)}
    (call : Call I V σ) (ref : Option (Ref I)) :
    CallKnows H w commits { call with phase := .aggregate ref } :=
  ⟨trivial, fun _ h => absurd h not_false, fun _ _ => trivial⟩

namespace Seen

/-- Instances are made or restored, and others write. -/
theorem setWorld (hs : Seen H s) (hS : Shape H s) {w : World I V σ}
    (hlog : s.world.storages.eventStorage.events.Sublist w.storages.eventStorage.events)
    (hsn : w.storages.snapshotStorage.snapshots = s.world.storages.snapshotStorage.snapshots)
    (hr : ∀ r id snapshot, w.instances r = some (.restoring id snapshot) →
      s.world.instances r = some (.restoring id snapshot)
        ∨ (∃ h, r.owner = .cache h id) ∧ snapshot = none)
    (hk : ∀ r, r.serial < s.world.nextRef → w.instances r = s.world.instances r
      ∨ (∃ id snapshot, s.world.instances r = some (.restoring id snapshot))
        ∧ ∀ h id, r.owner = .cache h id → HasSeen H w s.commits h id r) :
    Seen H (s.setWorld w) where
  snapshots id := by
    rw [Sys.setWorld_world, hsn]
    exact hs.snapshots id
  restoring r id snapshot hi := (hr r id snapshot hi).elim (hs.restoring r id snapshot) fun h => h
  log := hs.log.trans hlog
  kept := by
    refine hs.kept.mono rfl (fun _ _ => rfl) (fun h id r hre hseen => ?_) fun c call hc hcall => ?_
    · obtain ⟨ho, hn⟩ := (hS.entry h id).value r hre
      rcases hk r hn with hi | ⟨-, hi⟩
      · exact hseen.congr hi
      · exact hi h id ho
    · refine hcall.congr fun r hw => ?_
      obtain ⟨-, hn⟩ := (hS.calls c call hc).ref r (Phase.ref_of_works hw)
      refine (hk r hn).resolve_right ?_
      rintro ⟨⟨id, snapshot, hi⟩, -⟩
      obtain ⟨i, hi', hready⟩ := hcall.ready r hw
      cases hi.symm.trans hi'
      cases hready

/-- A call writes to its instance and works on it. -/
theorem write (hs : Seen H s) (hS : Shape H s) {c : ℕ} {call : Call I V σ} {ref : Ref I}
    {aggregate : Aggregate I V σ} {applied : List (Event I V)} {phase : Phase I V σ}
    (hc : s.calls c = some call) (hr : call.phase.ref = some ref) (hw : phase.works ref)
    (hok : CallKnows H (s.world.setInstance ref (.ready aggregate applied)) s.commits
      { call with phase }) :
    Seen H ((s.setWorld (s.world.setInstance ref (.ready aggregate applied))).goOn c call
      phase) := by
  have hne : ∀ r, r ≠ ref →
      (s.world.setInstance ref (.ready aggregate applied)).instances r = s.world.instances r :=
    fun r hrr => by simp [World.setInstance, hrr]
  refine ⟨hs.snapshots, fun r id snapshot hi => ?_, hs.log, fun h id r hre => ?_,
    fun x callx hx => ?_⟩
  · by_cases hrr : r = ref
    · simp [Sys.goOn, World.setInstance, hrr] at hi
    · exact hs.restoring r id snapshot ((hne r hrr).symm.trans hi)
  · by_cases hrr : r = ref
    · exact .inl ⟨c, { call with phase }, Sys.setCall_calls_self .., hrr ▸ hw⟩
    · rcases hs.kept.entries h id r hre with ⟨x, callx, hx, hwx⟩ | hseen
      · refine .inl ⟨x, callx, ?_, hwx⟩
        have hxc : x ≠ c := ne_of_works hc hr hx hwx hrr
        simpa [Sys.goOn, hxc] using hx
      · exact .inr (hseen.congr (hne r hrr))
  · by_cases hxc : x = c
    · obtain rfl : { call with phase } = callx := by simpa [Sys.goOn, hxc] using hx
      exact hok
    · have hx : s.calls x = some callx := by simpa [Sys.goOn, hxc] using hx
      exact (hs.kept.calls x callx hx).congr fun r hwx =>
        hne r (hS.ref_ne hx hc (Phase.ref_of_works hwx) hr hxc)

/-- A new instance is no one's before. -/
theorem make (hs : Seen H s) (hS : Shape H s) {o : Owner I} {i : Instance I V σ}
    (hi : ∀ id snapshot, i = .restoring id snapshot → (∃ h, o = .cache h id) ∧ snapshot = none) :
    Seen H (s.setWorld (s.world.make o i).1) := by
  refine hs.setWorld hS (List.Sublist.refl _) rfl (fun r id snapshot hr => ?_) fun r hr => .inl ?_
  · by_cases he : r = ⟨o, s.world.nextRef⟩
    · subst he
      exact .inr (hi id snapshot (by simpa [World.make, World.setInstance] using hr))
    · exact .inl (by simpa [World.make, World.setInstance, he] using hr)
  · have hne : r ≠ ⟨o, s.world.nextRef⟩ := fun h =>
      Nat.lt_irrefl s.world.nextRef (by rw [h] at hr; exact hr)
    simp [World.make, World.setInstance, hne]

/-- `#aggregatesCache.get`: what is not read yet will be read of all that is stored. -/
theorem getCacheEntry (hs : Seen H s) (hS : Shape H s) (h : ℕ) (id : I) :
    Seen H (getCacheEntry s h id).1 := by
  rcases hf : (s.cache h).factories id with _ | f
  · rw [getCacheEntry_eq hf]
    exact hs
  · obtain ⟨rfl, -⟩ := (hS.entry h id).factory f hf
    have hs' : Seen H (s.setWorld (s.world.restoreAggregate h f).1) :=
      hs.make hS (by rintro _ _ ⟨⟩; exact ⟨⟨h, rfl⟩, hs.snapshots f⟩)
    rw [getCacheEntry_of_factory hf]
    refine ⟨hs'.snapshots, hs'.restoring, hs'.log, hs'.kept.setCaches rfl fun h' id' r hr => ?_⟩
    by_cases hk : h' = h ∧ id' = f
    · obtain ⟨rfl, rfl⟩ := hk
      obtain rfl : _ = r := by simpa using hr
      refine .inr fun aggregate applied hi => ?_
      simp [World.restoreAggregate, World.make, World.setInstance] at hi
    · refine .inl ?_
      by_cases hh : h' = h
      · have hne : id' ≠ f := fun h => hk ⟨hh, h⟩
        simpa [hh, hne] using hr
      · simpa [hh] using hr

/-- A call that has a lease and works on nothing gets an instance. -/
theorem getAggregate (hs : Seen H s) (hS : Shape H s) {c : ℕ} {call' : Call I V σ}
    (hw : ∀ call r, s.calls c = some call → ¬ call.phase.works r) :
    Seen H (H.getAggregate s c call') := by
  simp only [CommandHandlers.getAggregate]
  split
  · rename_i id _
    have hs' := hs.getCacheEntry hS call'.handler id
    have hcalls := getCacheEntry_calls s call'.handler id
    generalize CommandHandlers.getCacheEntry s call'.handler id = e at hs' hcalls ⊢
    obtain ⟨t, ref⟩ := e
    exact ⟨hs'.snapshots, hs'.restoring, hs'.log,
      hs'.kept.setCall (callKnows_aggregate call' ref) fun call r _ _ hc hw' =>
        absurd hw' (hw call r (hcalls ▸ hc))⟩
  · have hs' : Seen H (s.setWorld (s.world.setEventStorage
        s.world.storages.eventStorage.getNewId.1)) :=
      hs.setWorld hS (List.Sublist.refl _) rfl (fun _ _ _ h => .inl h) fun _ _ => .inl rfl
    have hs'' := hs'.make (hS.setWorld (Nat.le_refl _) hS.fresh) (o := .call c)
      (i := .ready (H.aggregateType.create (H.newId s.world.storages.eventStorage.getNewId.2)) [])
      fun _ _ h => by cases h
    exact ⟨hs''.snapshots, hs''.restoring, hs''.log,
      hs''.kept.setCall (callKnows_aggregate call' _) fun call r _ _ hc hw' =>
        absurd hw' (hw call r hc)⟩

/-- Caches, calls and locks change, and what is kept stays kept. -/
theorem of_kept (hs : Seen H s) {s' : Sys I V σ} (hw : s'.world = s.world)
    (hk : s'.commits = s.commits)
    (hkept : Kept (HasSeen H s.world s.commits) (CallKnows H s.world s.commits) s') : Seen H s' := by
  obtain ⟨h1, h2, h3, -⟩ := hs
  exact ⟨by rwa [hw], by rwa [hw], by rwa [hw, hk], by rwa [hw, hk]⟩

theorem finish (hs : Seen H s) {c : ℕ} {call : Call I V σ}
    (hrest : ∀ call r h id, s.calls c = some call → call.phase.works r →
      (s.cache h).entries id = some r → HasSeen H s.world s.commits h id r) :
    Seen H (H.finish s c call) :=
  hs.of_kept (by simp) (by simp) (hs.kept.finish hrest)

theorem throwFrom (hs : Seen H s) (hS : Shape H s) {c : ℕ} {call : Call I V σ}
    (hc : s.calls c = some call) : Seen H (H.throwFrom s c call) :=
  hs.of_kept (by simp [CommandHandlers.throwFrom]) (by simp [CommandHandlers.throwFrom])
    (hs.kept.throwFrom hS hc)

/-- A call that awaits its lock has asked for it. -/
theorem setLock (hs : Seen H s) {c h : ℕ} {call : Call I V σ} {awaits awaits' : Acquiring}
    (lock : Lock) (hc : s.calls c = some call) (hp : call.phase = .acquiring awaits) :
    Seen H ((s.setLock h lock).goOn c call (.acquiring awaits')) := by
  have hl : Kept (HasSeen H s.world s.commits) (CallKnows H s.world s.commits)
      (s.setLock h lock) := hs.kept.setCaches rfl fun h' id' r hr => .inl (by simpa using hr)
  refine hs.of_kept rfl rfl (hl.setCall (callKnows_acquiring call awaits') fun callx r _ _ hx hw => ?_)
  obtain rfl := Option.some.inj (hc.symm.trans hx)
  rw [hp] at hw
  exact absurd hw not_false

theorem execute (hs : Seen H s) (hS : Shape H s) {c h : ℕ} {cmd : Command I V}
    (hc : s.calls c = none) : Seen H (H.execute s c h cmd) := by
  simp only [CommandHandlers.execute]
  split
  · exact hs.getAggregate hS fun call r hc' => by simp [hc] at hc'
  · rename_i id hid
    let call : Call I V σ := { handler := h, cmd, phase := .acquiring (.blockingLock 0) }
    have h1 : Kept (HasSeen H s.world s.commits) (CallKnows H s.world s.commits)
        (s.setCache h ((s.cache h).use id id)) :=
      hs.kept.setCaches rfl fun h' id' r hr => .inl (by
        by_cases hh : h' = h
        · simpa [hh, MapAssertable.use_entries] using hr
        · simpa [hh] using hr)
    have h2 : Seen H ((s.setCache h ((s.cache h).use id id)).setCall c call) :=
      hs.of_kept rfl rfl (h1.setCall (callKnows_acquiring call _)
        fun call' r _ _ hc' => by simp [hc] at hc')
    have h3 : Seen H ((allocateCacheEntry s h id).setCall c call) := by
      rw [allocateCacheEntry_eq]
      exact h2.getCacheEntry (hS.begin hc (show aggregateId call = some id from hid) rfl) h id
    generalize ((allocateCacheEntry s h id).lock h).acquire (H.lockName id) = a
    have h4 : Seen H ((((allocateCacheEntry s h id).setLock h a.1).setCall c call).setCall c
        { call with phase := .acquiring a.2 }) := h3.setLock a.1 (Sys.setCall_calls_self ..) rfl
    rwa [Sys.setCall_setCall] at h4

end Seen

theorem committed_append (commits : List (Commit I V σ)) (commit : Commit I V σ) (h : ℕ) (id : I) :
    committedEvents H (commits ++ [commit]) h id = committedEvents H commits h id ++
      if commit.handler = h ∧ commitId commit = some id then
        commit.events.filter fun e => e.aggregateId = some id ∧ H.aggregateType.restores e
      else [] := by
  simp only [committedEvents, List.filter_append, List.flatMap_append]
  congr 1
  split_ifs with hk
  · simp [hk]
  · simp only [List.filter_cons, hk, List.filter_nil]
    rfl

theorem committed_append_of_ne {commits : List (Commit I V σ)} {commit : Commit I V σ} {h : ℕ}
    {id : I} (hne : ¬ (commit.handler = h ∧ commitId commit = some id)) :
    committedEvents H (commits ++ [commit]) h id = committedEvents H commits h id := by
  rw [committed_append, if_neg hne, List.append_nil]

/-- What was committed is among the aggregate's stored events. -/
theorem committed_sublist {log : List (Event I V)} {commits : List (Commit I V σ)}
    (hlog : (commits.flatMap (·.events)).Sublist log) (h : ℕ) (id : I) :
    (committedEvents H commits h id).Sublist ((stored log id).filter (H.aggregateType.restores ·)) := by
  have hsub : ((commits.filter fun commit => commit.handler = h ∧ commitId commit = some id).flatMap
      (·.events)).Sublist log := (List.filter_sublist.flatMap _).trans hlog
  have hf := hsub.filter fun e => e.aggregateId = some id ∧ H.aggregateType.restores e
  rw [stored, List.filter_filter]
  simpa only [committedEvents, Bool.decide_and, Bool.decide_eq_true, Bool.and_comm] using hf

/-- The call's instance is the entry's, and no other call works on it. -/
theorem Seen.hasSeen (hs : Seen H s) (hS : Shape H s) {c : ℕ} {call : Call I V σ} {ref : Ref I}
    {id : I} (hc : s.calls c = some call) (hid : aggregateId call = some id)
    (hph : call.phase = .aggregate (some ref)) :
    HasSeen H s.world s.commits call.handler id ref := by
  have he := ((hS.entry call.handler id).inUse c call hc rfl hid (by simp [hph, Phase.atEntry])).2
  rw [hph] at he
  refine (hs.kept.entries _ _ _ he).resolve_left ?_
  rintro ⟨x, callx, hx, hw⟩
  by_cases hxc : x = c
  · obtain rfl := Option.some.inj (hc.symm.trans (hxc ▸ hx))
    rw [hph] at hw
    exact hw
  · exact hS.ref_ne hx hc (Phase.ref_of_works hw) (by rw [hph]; rfl) hxc rfl

variable [Truthy V]

omit [Truthy V] in
/-- A restored instance has applied all that is stored of the types its class restores from. -/
theorem restored_hasSeen (hs : Seen H s) (h : ℕ) (id : I) :
    (committedEvents H s.commits h id).Sublist (H.aggregateType.getAggregateEvents
      s.world.storages.eventStorage.events id none) := by
  rw [AggregateType.getAggregateEvents_eq, AggregateType.allAfterSnapshot_none,
    AggregateType.query]
  exact (committed_sublist hs.log h id).trans (List.sublist_append_left ..)

omit [Truthy V] in
/-- An instance that was being restored has been, or failed to be. -/
theorem Seen.setInstance (hs : Seen H s) (hS : Shape H s) {ref : Ref I} {id : I}
    {snapshot : Option (Event I V)} {i : Instance I V σ}
    (hi : s.world.instances ref = some (.restoring id snapshot))
    (hne : ∀ id' snapshot', i ≠ .restoring id' snapshot')
    (hseen : ∀ h aggregate applied, i = .ready aggregate applied →
      (committedEvents H s.commits h id).Sublist applied) :
    Seen H (s.setWorld (s.world.setInstance ref i)) := by
  refine hs.setWorld hS (List.Sublist.refl _) rfl (fun r id' snapshot' hr => .inl ?_) fun r _ => ?_
  · by_cases hrr : r = ref
    · exact absurd (by simpa [World.setInstance, hrr] using hr) (hne id' snapshot')
    · simpa [World.setInstance, hrr] using hr
  · by_cases hrr : r = ref
    · subst hrr
      refine .inr ⟨⟨id, snapshot, hi⟩, fun h id' ho aggregate applied hr => ?_⟩
      obtain ⟨⟨h', ho'⟩, -⟩ := hs.restoring r id snapshot hi
      obtain ⟨-, rfl⟩ := Owner.cache.inj (ho'.symm.trans ho)
      exact hseen h aggregate applied (by simpa [World.setInstance] using hr)
    · exact .inl (by simp [World.setInstance, hrr])

/-- A forced batch is appended while the handler's cache has no instance of the aggregate, or one
that has yet to read the events. -/
def ForcedUnread (s : Sys I V σ) : Action I V → Prop
  | .process c => (s.calls c).any (fun call => call.phase.forces && (aggregateId call).any fun id =>
      (((s.cache call.handler).entries id).bind s.world.instances).any (·.isReady)) = false
  | _ => True

namespace Seen

variable {c : ℕ} {call : Call I V σ} {attempt : Attempt I V σ} {emitThrew : Bool}
  {aggregate aggregate' : Aggregate I V σ} {applied applied' : List (Event I V)}

omit [Truthy V] in
/-- A batch's dispatch has failed. -/
theorem reverts (hs : Seen H s) {events : List (Event I V)} {flag : Bool}
    {awaits : Dispatching I V} {todo : List (Event I V)} {error : DispatchError I}
    {snapshotStorage : InMemorySnapshotStorage I V} (hc : s.calls c = some call)
    (hph : call.phase = .dispatch attempt events flag awaits)
    (hsn : ∀ id, snapshotStorage.snapshots id = none) :
    Seen H ((s.setWorld (s.world.setSnapshotStorage snapshotStorage)).goOn c call
      (.dispatch attempt events flag (.reverting todo error))) := by
  have hknows : CallKnows H s.world s.commits
      { call with phase := .dispatch attempt events flag (.reverting todo error) } :=
    ⟨trivial, fun r hw => (hs.kept.calls c call hc).ready r (by rw [hph]; exact hw),
      fun _ _ => trivial⟩
  have hk := hs.kept.setCall (c := c) hknows fun callx r h id hx hw _ => .inl (by
    obtain rfl := Option.some.inj (hc.symm.trans hx)
    rw [hph] at hw
    exact hw)
  exact ⟨hsn, hs.restoring, hs.log, hk.mono rfl (fun _ _ => rfl) (fun _ _ _ _ h => h.congr rfl)
    fun _ _ _ h => CallKnows.congr (w := s.world) (fun _ _ => rfl) h⟩

omit [Truthy V] in
/-- The event storage takes a batch. -/
theorem committed (hs : Seen H s) (hS : Shape H s) {events : List (Event I V)} {flag : Bool}
    {processors : List Stage} {data data' : List (Envelope I V)}
    {eventStorage : InMemoryEventStorage I V} (hc : s.calls c = some call)
    (hph : call.phase = .dispatch attempt events flag
      (.processing (.inMemoryEventStorage :: processors) data))
    (hr : s.world.storages.eventStorage.process data = (eventStorage, .ok data'))
    (hC : ForcedUnread s (.process c)) :
    Seen H (((s.setWorld (s.world.setEventStorage eventStorage)).addCommit {
      handler := call.handler
      cmd := call.cmd
      attempt
      emitted := events
      events := data.filterMap (·.event) }).goOn c call
        (.dispatch attempt events flag (.processing processors data'))) := by
  have hknows := hs.kept.calls c call hc
  have hdel := hknows.delivers
  simp only [hph, Phase.delivers, List.cons.injEq, true_and, reduceCtorEq, or_false] at hdel
  obtain ⟨rfl, rfl⟩ := hdel
  rw [EventDispatcher.filterMap_envelopes]
  have hev : eventStorage.events = s.world.storages.eventStorage.events ++ events :=
    (EventDispatcher.process_ok hr).1
  let commit : Commit I V σ :=
    { handler := call.handler, cmd := call.cmd, attempt, emitted := events, events }
  -- what other aggregates' calls have to see stays
  have hother : ∀ h id, ¬ (call.handler = h ∧ aggregateId call = some id) →
      committedEvents H (s.commits ++ [commit]) h id = committedEvents H s.commits h id :=
    fun h id hne => committed_append_of_ne hne
  refine ⟨hs.snapshots, hs.restoring, ?_, fun h id r hre => ?_, fun x callx hx => ?_⟩
  · simp only [Sys.goOn, Sys.setCall_commits, Sys.addCommit_commits, List.flatMap_append,
      List.flatMap_singleton]
    exact (hs.log.append (List.Sublist.refl events)).trans (hev ▸ List.Sublist.refl _)
  · rcases hs.kept.entries h id r hre with ⟨x, callx, hx, hw⟩ | hseen
    · by_cases hxc : x = c
      · obtain rfl := Option.some.inj (hc.symm.trans (hxc ▸ hx))
        rw [hph] at hw
        exact .inl ⟨c, _, Sys.setCall_calls_self .., hw⟩
      · exact .inl ⟨x, callx, by simpa [Sys.goOn, hxc] using hx, hw⟩
    · by_cases hk : call.handler = h ∧ aggregateId call = some id
      · obtain ⟨rfl, hid⟩ := hk
        rcases flag with _ | _
        · -- the entry's instance is the call's own
          have he := ((hS.entry call.handler id).inUse c call hc rfl hid (by rw [hph]; rfl)).2
          rw [hph] at he
          obtain rfl : attempt.ref = r := Option.some.inj (he.symm.trans hre)
          exact .inl ⟨c, _, Sys.setCall_calls_self .., rfl, rfl⟩
        · refine .inr fun aggregate applied hi => ?_
          have hi : s.world.instances r = some (.ready aggregate applied) := hi
          have hre : (s.cache call.handler).entries id = some r := hre
          simp [ForcedUnread, hc, hph, Phase.forces, hid, hre, hi, Instance.isReady] at hC
      · refine .inr fun aggregate applied hi => ?_
        exact (hother h id hk).symm ▸ hseen aggregate applied hi
  · by_cases hxc : x = c
    · obtain rfl : _ = callx := by simpa [Sys.goOn, hxc] using hx
      refine ⟨.inr rfl, fun r hw => hknows.ready r (by rw [hph]; exact hw), fun id hid hf => ?_⟩
      intro aggregate applied hi
      have hseen := hknows.seen id hid
      rw [hph] at hseen
      obtain ⟨seen, rfl, hsub⟩ := hseen hf aggregate applied hi
      have he := committed_append (H := H) s.commits commit call.handler id
      rw [if_pos ⟨rfl, hid⟩] at he
      exact he ▸ hsub.append List.filter_sublist
    · have hx : s.calls x = some callx := by simpa [Sys.goOn, hxc] using hx
      have hk := hs.kept.calls x callx hx
      refine ⟨hk.delivers, hk.ready, fun id hid => ?_⟩
      by_cases hk' : call.handler = callx.handler ∧ aggregateId call = some id
      · -- a call of the same aggregate has no lease
        have hlx : callx.phase.leased = false := by
          by_contra hlx
          exact hxc (hS.mutex x c callx call id id hx hc hk'.1.symm hid hk'.2 rfl
            (by simpa using hlx) (by rw [hph]; rfl))
        rcases hpx : callx.phase with awaits | ref | ⟨attempt, threw⟩ | ⟨attempt, events, flag, w⟩
        · trivial
        all_goals simp [hpx, Phase.leased] at hlx
      · exact (hk.seen id hid).of_committed (hother _ _ hk')

/-- A handler emits, or takes a snapshot. -/
theorem called (hs : Seen H s) (hS : Shape H s) {method : Method V} {returned : Bool}
    (hc : s.calls c = some call) (hph : call.phase = .handler attempt emitThrew)
    (hi : s.world.instances attempt.ref = some (.ready aggregate applied))
    (hm : H.aggregateType.callMethod aggregate method = (aggregate', returned)) :
    Seen H ((s.setWorld (s.world.setInstance attempt.ref (.ready aggregate'
      (applied ++ aggregate'.changes.drop aggregate.changes.length)))).goOn c call
        (.handler { attempt with methods := attempt.methods ++ [method] }
          (emitThrew || !returned))) := by
  refine hs.write hS hc (by rw [hph]; rfl) rfl ⟨trivial, ?_, fun id hid => ?_⟩
  · rintro r rfl
    exact ready_setInstance
  · have hseen := (hs.kept.calls _ _ hc).seen id hid
    rw [hph] at hseen
    obtain ⟨seen, rfl, hsub⟩ := hseen.1 _ _ hi
    have hle := hseen.2 _ _ hi
    obtain ⟨new, hadds⟩ := AggregateType.callMethod_adds (T := H.aggregateType) aggregate method
    have hnew : aggregate'.changes = aggregate.changes ++ new := by
      rw [hm] at hadds
      exact hadds.changes
    refine ⟨hasSeenBefore_setInstance.2 ⟨seen, ?_, hsub⟩, offset_setInstance.2 ?_⟩
    · rw [hnew, List.drop_left, List.drop_append_of_le_length hle, List.append_assoc]
    · rw [hnew, List.length_append]
      exact Nat.le_add_right_of_le hle

omit [Truthy V] in
/-- A handler throws. -/
theorem threw (hs : Seen H s) (hS : Shape H s) (hc : s.calls c = some call)
    (hph : call.phase = .handler attempt emitThrew)
    (hi : s.world.instances attempt.ref = some (.ready aggregate applied)) :
    Seen H (H.throwFrom (s.setWorld (s.world.setInstance attempt.ref
      (.ready aggregate' applied'))) c call) := by
  let phase : Phase I V σ := .dispatch attempt [] false (.reverting [] (.error ""))
  have hs' : Seen H ((s.setWorld (s.world.setInstance attempt.ref (.ready aggregate' applied'))).goOn
      c call phase) := by
    refine hs.write hS hc (by rw [hph]; rfl) ⟨rfl, rfl⟩ ⟨trivial, ?_, fun id _ => trivial⟩
    rintro r ⟨rfl, -⟩
    exact ready_setInstance
  have hS' : Shape H ((s.setWorld (s.world.setInstance attempt.ref
      (.ready aggregate' applied'))).goOn c call phase) :=
    (hS.setInstance _ (by simp [hi])).goOn hc (by rw [hph]; rfl) (by rw [hph]; rfl)
      (by rw [hph]; exact fun h => h)
  have h := hs'.throwFrom hS' (Sys.setCall_calls_self ..)
  rwa [Sys.goOn, throwFrom_setCall] at h

/-- A handler has come to its end. -/
theorem returned (hs : Seen H s) (hS : Shape H s) (hp : H.pipeline = [.inMemoryEventStorage])
    {b : Bool} {events : List (Event I V)} (hc : s.calls c = some call)
    (hph : call.phase = .handler attempt emitThrew)
    (hi : s.world.instances attempt.ref = some (.ready aggregate applied))
    (ha : H.aggregateType.getUncommittedEvents aggregate b attempt.eventsOffset =
      (aggregate', some events)) :
    (events = [] → Seen H (H.finish (s.setWorld (s.world.setInstance attempt.ref
      (.ready { aggregate' with command := none }
        (applied ++ aggregate'.changes.drop aggregate.changes.length)))) c call))
    ∧ Seen H ((s.setWorld (s.world.setInstance attempt.ref
      (.ready { aggregate' with command := none }
        (applied ++ aggregate'.changes.drop aggregate.changes.length)))).goOn c call
        (.dispatch { attempt with shouldTakeSnapshot := b } events false
          (H.dispatch events false))) := by
  obtain ⟨rfl, new, hem, -⟩ := AggregateType.getUncommittedEvents_emitted ha
  -- what the instance has applied ends in what it emitted
  have hends : ∀ id, aggregateId call = some id → ∃ seen,
      applied ++ aggregate'.changes.drop aggregate.changes.length =
        seen ++ aggregate'.changes.drop attempt.eventsOffset
      ∧ (committedEvents H s.commits call.handler id).Sublist seen := by
    intro id hid
    have hseen := (hs.kept.calls _ _ hc).seen id hid
    rw [hph] at hseen
    obtain ⟨seen, rfl, hsub⟩ := hseen.1 _ _ hi
    refine ⟨seen, ?_, hsub⟩
    rw [hem.changes, List.drop_left, List.drop_append_of_le_length (hseen.2 _ _ hi),
      List.append_assoc]
  have hwrite : ∀ phase : Phase I V σ, phase.works attempt.ref →
      CallKnows H (s.world.setInstance attempt.ref (.ready { aggregate' with command := none }
        (applied ++ aggregate'.changes.drop aggregate.changes.length))) s.commits
          { call with phase } →
      Seen H ((s.setWorld (s.world.setInstance attempt.ref
        (.ready { aggregate' with command := none }
          (applied ++ aggregate'.changes.drop aggregate.changes.length)))).goOn c call phase) :=
    fun phase hw hk => hs.write hS hc (by rw [hph]; rfl) hw hk
  refine ⟨fun h0 => ?_, hwrite _ ⟨rfl, rfl⟩ ⟨?_, ?_, fun id hid => ?_⟩⟩
  · have hs' := hwrite (.dispatch attempt [] false (.processing [] [])) ⟨rfl, rfl⟩
      ⟨.inr rfl, by rintro r ⟨rfl, -⟩; exact ready_setInstance, fun id hid _ => by
        obtain ⟨seen, he, hsub⟩ := hends id hid
        rw [h0, List.append_nil] at he
        exact hasSeen_setInstance.2 (he ▸ hsub)⟩
    rw [Sys.goOn] at hs'
    rw [← finish_setCall H _ c call]
    refine hs'.finish fun call' r h id hc' hw hre => ?_
    obtain rfl : _ = call' := by simpa using hc'
    obtain ⟨rfl, -⟩ := hw
    obtain ⟨rfl, hid⟩ := hS.entry_of_ref hc (by rw [hph]; rfl) hre
    exact (hs'.kept.calls c _ (Sys.setCall_calls_self ..)).seen id hid rfl
  · simp only [dispatch]
    split_ifs
    · trivial
    · exact .inl ⟨hp, rfl⟩
  · rintro r ⟨rfl, -⟩
    exact ready_setInstance
  · simp only [dispatch, hp]
    split_ifs
    · trivial
    · exact fun _ => hasSeenBefore_setInstance.2 (hends id hid)

omit [Truthy V] in
/-- A retry reads the events anew. -/
theorem retries (hs : Seen H s) (hS : Shape H s) (hc : s.calls c = some call)
    (hl : call.phase.leased) :
    Seen H (H.getAggregate (resetCacheEntry s call) c
      { call with attempts := call.attempts + 1 }) := by
  rw [← getAggregate_setCall H _ c _ { call with phase := .acquiring .acquired }]
  have hs' : Seen H ((resetCacheEntry s call).setCall c
      { call with phase := .acquiring .acquired }) :=
    hs.of_kept (by simp) (by simp) (hs.kept.reset hS hc (callKnows_acquiring call _))
  refine hs'.getAggregate (hS.reset hc hl) fun callx r hx hw => ?_
  obtain rfl : _ = callx := by simpa using hx
  exact hw

omit [Truthy V] in
/-- A forced batch is the call's alone, and the entry reads the events anew. -/
theorem forced (hs : Seen H s) (hS : Shape H s) (hp : H.pipeline = [.inMemoryEventStorage])
    {events : List (Event I V)} (hc : s.calls c = some call) :
    Seen H ((resetCacheEntry s call).goOn c call
      (.dispatch attempt events true (H.dispatch events true))) := by
  refine hs.of_kept (by simp [Sys.goOn]) (by simp [Sys.goOn])
    (hs.kept.reset hS hc ⟨?_, ?_, fun id _ => ?_⟩)
  · simp only [dispatch]
    split_ifs
    · trivial
    · exact .inl ⟨hp, rfl⟩
  · rintro r ⟨-, hf⟩
    cases hf
  · simp only [dispatch, hp]
    split_ifs
    · trivial
    · exact fun hf => by cases hf

end Seen

/-- One step keeps what the instances have seen. -/
theorem Effect.seen {s' : Sys I V σ} {a : Action I V} (hp : H.pipeline = [.inMemoryEventStorage])
    (hs : Seen H s) (hS : Shape H s) (hC : ForcedUnread s a) (h : Effect H s a s') : Seen H s' := by
  cases h with
  | execute hc => exact hs.execute hS hc
  | acquire hc _ hph _ => exact hs.setLock _ hc hph
  | lease hc hph =>
    refine hs.getAggregate hS fun callx r hx hw => ?_
    obtain rfl := Option.some.inj (hc.symm.trans hx)
    rw [hph] at hw
    exact hw
  | restored hi ha =>
    obtain ⟨-, rfl⟩ := hs.restoring _ _ _ hi
    refine hs.setInstance hS hi (by simp) fun h aggregate applied he => ?_
    obtain ⟨-, rfl⟩ := Instance.ready.inj he
    exact restored_hasSeen hs h _
  | failed hi => exact hs.setInstance hS hi (by simp) (by simp)
  | notHandled hc _ => exact hs.throwFrom hS hc
  | notRestored hc hph =>
    refine hs.finish fun callx r _ _ hx hw => ?_
    obtain rfl := Option.some.inj (hc.symm.trans hx)
    rw [hph] at hw
    exact absurd hw not_false
  | handled hc hph hi hcmd =>
    refine hs.write hS hc (by rw [hph]; rfl) rfl ⟨trivial, ?_, fun id hid => ⟨?_, ?_⟩⟩
    · rintro r rfl
      exact ready_setInstance
    · exact hasSeenBefore_setInstance.2 ⟨_, by simp, hs.hasSeen hS hc hid hph _ _ hi⟩
    · exact offset_setInstance.2 (Nat.le_refl _)
  | called hc hph hi _ hm => exact hs.called hS hc hph hi hm
  | @threw _ c call attempt _ aggregate aggregate' applied hc hph hi _ =>
    exact hs.threw hS hc hph hi
  | returned hc hph hi ha hr =>
    rcases hr _ rfl with ⟨hev, rfl⟩ | ⟨hev, rfl⟩
    · exact (hs.returned hS hp hc hph hi ha).1 hev
    · exact (hs.returned hS hp hc hph hi ha).2
  | @committed c call attempt events flag processors data data' eventStorage hc hph hr =>
    exact hs.committed hS hc hph hr hC
  | dispatching hc hph hd =>
    have hknows := hs.kept.calls _ _ hc
    have hdel := hknows.delivers
    rw [hph] at hdel
    cases hd with
    | rejected => exact hs.reverts hc hph hs.snapshots
    | notDeleted => exact hs.reverts hc hph hs.snapshots
    | starts => simp [Phase.delivers] at hdel
    | saves | notSaved | saved => exact absurd hdel not_false
    | @deletes event _ _ _ hd =>
      refine hs.reverts hc hph fun id => Option.eq_none_iff_forall_ne_some.2 fun S hS => ?_
      have hsnap := InMemorySnapshotStorage.deleteAggregateSnapshot_snapshots hd hS
      exact absurd ((hs.snapshots id).symm.trans hsnap) (by simp)
  | dispatched hc hph ha =>
    refine hs.finish fun callx r h id hx hw hre => ?_
    obtain rfl := Option.some.inj (hc.symm.trans hx)
    have hknows := hs.kept.calls _ _ hc
    rw [hph] at hw
    obtain ⟨rfl, rfl⟩ := hw
    obtain ⟨data, rfl⟩ := ha.resolve_right fun h => Bool.false_ne_true h.1
    obtain ⟨rfl, hid⟩ := hS.entry_of_ref hc (by rw [hph]; rfl) hre
    have hseen := hknows.seen id hid
    rw [hph] at hseen
    exact hseen rfl
  | settled hc hph hr =>
    rcases hr with ⟨-, rfl⟩ | ⟨-, rfl⟩ | ⟨-, -, rfl⟩
    · exact hs.throwFrom hS hc
    · exact hs.retries hS hc (by rw [hph]; rfl)
    · exact hs.forced hS hp hc
  | append =>
    exact hs.setWorld hS (List.sublist_append_left ..) rfl (fun _ _ _ h => .inl h) fun _ _ => .inl rfl

omit [Truthy V] in
theorem seen_init : Seen H ({} : Sys I V σ) where
  snapshots _ := rfl
  restoring _ _ _ h := by cases h
  log := List.Sublist.refl _
  kept := ⟨fun _ _ _ h => (by cases h), fun _ _ h => (by cases h)⟩

theorem reach_seen (hp : H.pipeline = [.inMemoryEventStorage])
    (h : H.machine.ReachIf ForcedUnread s) : Seen H s := by
  refine h.invariant_of_reach (P := Seen H) (fun s hs => ?_) fun s a s' hr hs hC hst =>
    (step_effect hst).seen hp hs (reach_shape hr) hC
  exact (show s = {} from hs) ▸ seen_init

/-- In a run where every forced batch is appended before the entry's next instance has read the
events: the instance of a call that comes to `handle` has applied what commands of its handler
committed under the aggregate's lock, of the types its class restores from. -/
theorem handled_has_seen (hp : H.pipeline = [.inMemoryEventStorage])
    (h : H.machine.ReachIf ForcedUnread s) {c : ℕ} {call : Call I V σ} {id : I} {ref : Ref I}
    {aggregate : Aggregate I V σ} {applied : List (Event I V)} (hc : s.calls c = some call)
    (hid : aggregateId call = some id) (hph : call.phase = .aggregate (some ref))
    (hi : s.world.instances ref = some (.ready aggregate applied)) :
    (committedEvents H s.commits call.handler id).Sublist applied :=
  (reach_seen hp h).hasSeen (reach_shape h) hc hid hph aggregate applied hi

section Runs

instance : ∀ (s : Sys I V σ) (a : Action I V), Decidable (ForcedUnread s a)
  | s, .process c => inferInstanceAs (Decidable ((s.calls c).any _ = false))
  | _, .emit .. | _, .settle .. | _, .append _ | _, .handlerReturns .. | _, .execute ..
  | _, .acquire _ | _, .lease _ | _, .restore _ | _, .restoreFails _ | _, .handle _
  | _, .takeSnapshot _ | _, .handlerThrows _ => inferInstanceAs (Decidable True)

/-- An aggregate that adds up its events' numbers. -/
def sums : CommandHandlers String ℕ ℕ where
  aggregateType := {
    state := fun _ => 0
    handler := fun state event => (state + event.payload, true)
    makeSnapshot := some
    restoreSnapshot := fun _ payload => some payload }
  lockName := id
  newId := id

def executeSum (c : ℕ) : Action String ℕ :=
  .execute c 0 { type := "add", aggregateId := some "a", payload := 0 }

/-- A call whose batch meets another writer's event is dispatched again, ignoring that; a second
call comes while it is, before the batch is appended or after. -/
def overtaken (before after : List (Action String ℕ)) : List (Action String ℕ) :=
  [executeSum 0, .lease 0, .restore { owner := .cache 0 "a", serial := 0 }, .handle 0,
    .emit 0 "added" 1, .handlerReturns 0 false,
    .append [{ type := "added", aggregateId := some "a", aggregateVersion := some 0, payload := 2 }],
    .process 0, .settle 0 .ignore, executeSum 1] ++ before ++ [.process 0] ++ after
    ++ [.process 0, .acquire 1, .lease 1]

def readEvents : Action String ℕ := .restore { owner := .cache 0 "a", serial := 1 }

/-- The second call's instance has read the events before the forced batch is appended. -/
theorem handled_has_seen_fails :
    ¬ ∀ (H : CommandHandlers String ℕ ℕ) (s : Sys String ℕ ℕ) (c : ℕ) (call : Call String ℕ ℕ)
      (id : String) (ref : Ref String) (aggregate : Aggregate String ℕ ℕ)
      (applied : List (Event String ℕ)), H.pipeline = [.inMemoryEventStorage] →
        H.aggregateType.restoresFrom = none → H.machine.Reach s → s.calls c = some call →
        aggregateId call = some id → call.phase = .aggregate (some ref) →
        s.world.instances ref = some (.ready aggregate applied) →
          (committedEvents H s.commits call.handler id).Sublist applied := by
  intro hall
  obtain ⟨s, hs⟩ : ∃ s, sums.machine.run {} (overtaken [readEvents] []) = some s := ⟨_, rfl⟩
  have h := Machine.reach_of_run rfl hs
  cases hs
  exact absurd (hall sums _ 1 _ "a" _ _ _ rfl rfl h rfl rfl rfl rfl) (by decide)

/-- The second call's instance reads the events after the forced batch is appended. -/
theorem handled_has_seen_forced : ∃ (s : Sys String ℕ ℕ) (applied : List (Event String ℕ)),
    (committedEvents sums s.commits 0 "a").length = 1
      ∧ (committedEvents sums s.commits 0 "a").Sublist applied := by
  obtain ⟨s, hs⟩ : ∃ s, sums.machine.run {} (overtaken [] [readEvents]) = some s := ⟨_, rfl⟩
  have h := (Machine.ReachIf.init (C := ForcedUnread) rfl).run (by decide) hs
  obtain ⟨call, ref, aggregate, applied, hc, hh, hid, hph, hi, hlen⟩ :
      ∃ call ref aggregate applied, s.calls 1 = some call ∧ call.handler = 0
        ∧ aggregateId call = some "a" ∧ call.phase = .aggregate (some ref)
        ∧ s.world.instances ref = some (.ready aggregate applied)
        ∧ (committedEvents sums s.commits 0 "a").length = 1 := by
    cases hs
    exact ⟨_, _, _, _, rfl, rfl, rfl, rfl, rfl, rfl⟩
  exact ⟨s, applied, hlen, hh ▸ handled_has_seen rfl h hc hid hph hi⟩

end Runs

end CommandHandlers

end NodeCqrs
