import NodeCqrs.Proofs.AggregateTurns

/-!
# The streams and the snapshots command handlers write

In a run where no conflict is ignored each aggregate's stored events are numbered from 0 on, and
where no handler goes on after a failed `emit` what was stored came from instances that were the
fold of the events stored before (`commits_from_fold`). Where batches are in turn a snapshot holds
the fold of the events below its version (`snapshots_sound`).
-/

namespace NodeCqrs

namespace AggregateType

variable {I V σ : Type} [Truthy V] (T : AggregateType I V σ)

section fold

variable {events : List (Event I V)} {a : Aggregate I V σ} {k : ℕ}

theorem foldl_mutate_state : ∀ (events : List (Event I V)) (a : Aggregate I V σ),
    (events.foldl (fun a event => (T.mutate a event).1) a).state = T.stateAfter a.state events
  | [], _ => rfl
  | event :: events, a => foldl_mutate_state events (T.mutate a event).1

theorem foldl_mutate_version : ∀ {events : List (Event I V)} {a : Aggregate I V σ},
    Numbered (·.aggregateVersion) a.version events → T.Replays a.state events →
      (events.foldl (fun a event => (T.mutate a event).1) a).version = a.version + events.length
  | [], _, _, _ => rfl
  | event :: events, a, hn, hr => by
    have hv : (T.mutate a event).1.version = a.version + 1 := by
      have he : event.aggregateVersion = some a.version := hn.1
      rw [mutate_version T a event hr.1, he, Option.getD_some]
    rw [List.foldl_cons, foldl_mutate_version (hv ▸ hn.2) hr.2, hv, List.length_cons]
    omega

theorem fold_state (id : I) (events : List (Event I V)) :
    (T.fold id events).state = T.stateAfter (T.state id) events :=
  foldl_mutate_state T events _

/-- The fold of a stream counts its events. -/
theorem fold_version {id : I} (hn : Numbered (·.aggregateVersion) 0 events)
    (hr : T.Replays (T.state id) events) : (T.fold id events).version = events.length := by
  have h : (T.fold id events).version = 0 + events.length := foldl_mutate_version T hn hr
  rw [h, Nat.zero_add]

end fold

end AggregateType

/-- The stored events of the aggregate with smaller versions. -/
def storedBelow {I V : Type} [DecidableEq I] (log : List (Event I V)) (id : I) (version : ℕ) :
    List (Event I V) :=
  (stored log id).filter (·.aggregateVersion.any (· < version))

namespace CommandHandlers

variable {I V σ : Type} [DecidableEq I] [Truthy I] [Truthy V] (H : CommandHandlers I V σ)

/-- A batch is of one aggregate, numbered from the version of the instance that emitted it. -/
def IsStream (commit : Commit I V σ) : Prop :=
  Numbered (·.aggregateVersion) commit.attempt.start.version commit.events
    ∧ ∀ e ∈ commit.events, e.aggregateId = some commit.attempt.start.id

/-- When its handler began, the instance that emitted the batch was the fold of the stored events
with smaller versions. -/
def FromFold (log : List (Event I V)) (commit : Commit I V σ) : Prop :=
  commit.attempt.start.version =
      (H.aggregateType.fold commit.attempt.start.id
        (storedBelow log commit.attempt.start.id commit.attempt.start.version)).version
    ∧ commit.attempt.start.state =
      (H.aggregateType.fold commit.attempt.start.id
        (storedBelow log commit.attempt.start.id commit.attempt.start.version)).state

/-- The snapshot is of the fold of the stored events with smaller versions. -/
def IsSound (log : List (Event I V)) (id : I) (S : Event I V) : Prop :=
  ∃ k, S.aggregateVersion = some k
    ∧ H.aggregateType.makeSnapshot (H.aggregateType.fold id (storedBelow log id k)).state =
      some S.payload

variable {known : Prop} {H} {stream : List (Event I V)} {s : Sys I V σ}

theorem Data.storedBelow_thinned (hD : Data known H stream s) (hC : Covered stream s)
    (hahead : ∀ c, s.ahead c = []) (id : I) (version : ℕ) :
    Thinned (fun e => .inMemorySnapshotStorage ∈ H.pipeline ∧ e.type = SNAPSHOT_EVENT_TYPE)
      ((stored stream id).take version) (storedBelow s.log id version) := by
  rw [← Nat.sub_zero version, ← (hD.numbered id).filter_gt version, ← hC.stored_eq hD hahead id]
  exact (hD.log_thinned id).filter _

/-- Before a batch stands what the instance that emitted it is the fold of. -/
theorem Data.fromFold (hD : Data True H stream s) (hst : stored stream = stored s.log)
    {commit : Commit I V σ} (hc : commit ∈ s.commits)
    (hsuf : H.aggregateType.Sufficient (H.aggregateType.state commit.attempt.start.id)
      (storedBelow s.log commit.attempt.start.id commit.attempt.start.version)) :
    FromFold H s.log commit := by
  have hs := (hD.commits commit hc).start.synced trivial
  have hnum := hD.numbered commit.attempt.start.id
  have hbelow : storedBelow s.log commit.attempt.start.id commit.attempt.start.version =
      (stored stream commit.attempt.start.id).take commit.attempt.start.version := by
    rw [storedBelow, ← hst, hnum.filter_gt, Nat.sub_zero]
  rw [hbelow] at hsuf
  rw [FromFold, hbelow]
  constructor
  · rw [AggregateType.fold_version _ (hnum.take _) (hD.replays trivial _ _ hsuf), List.length_take,
      Nat.min_eq_left hs.version]
  · rw [AggregateType.fold_state]
    exact hs.state hsuf

/-- In a run where no conflict is ignored every stream is numbered from 0 on. If no handler went on
after a failed `emit` either, every batch came from an instance that was the fold of the stored
events before it, if its class reacts to no events of types it does not restore from. -/
theorem commits_from_fold (hp : H.pipeline = [.inMemoryEventStorage])
    (h : H.machine.ReachIf NeverIgnores s) :
    (∀ id, Numbered (·.aggregateVersion) 0 (stored s.log id))
      ∧ s.log = s.commits.flatMap (·.events)
      ∧ (∀ commit ∈ s.commits, IsStream commit)
      ∧ (H.machine.ReachIf Regular s → ∀ commit ∈ s.commits,
        H.aggregateType.Sufficient (H.aggregateType.state commit.attempt.start.id)
            (storedBelow s.log commit.attempt.start.id commit.attempt.start.version) →
          FromFold H s.log commit) := by
  have hE : H.pipeline.count .inMemoryEventStorage = 1 := by simp [hp]
  have hns : .inMemorySnapshotStorage ∉ H.pipeline := by simp [hp]
  have hsaves : ∀ (s : Sys I V σ) a, SavesCommitted H s a := fun s a => by
    cases a with
    | emit | process => exact fun h => absurd h hns
    | _ => trivial
  obtain ⟨hplain, stream, hD, hC⟩ := reach_plain False hE (fun h => absurd h hns)
    (h.mono fun s a hN => ⟨hN, False.elim, hsaves s a⟩)
  refine ⟨fun id => hplain.stored_eq hD hC id ▸ hD.numbered id, hD.log, fun commit hc => ?_,
    fun hR commit hc hsuf => ?_⟩
  · rw [IsStream, hplain.whole commit hc]
    exact ⟨(hD.commits commit hc).numbered, (hD.commits commit hc).ofId⟩
  · obtain ⟨hplain, stream, hD, hC⟩ := reach_plain True hE (fun h => absurd h hns)
      (hR.mono fun s a hR => ⟨hR.neverIgnores, fun _ => hR, hsaves s a⟩)
    exact hD.fromFold (funext (hplain.stored_eq hD hC)) hc hsuf

/-- Where batches are in turn and none is ahead of the event storage, the snapshots are sound. -/
theorem snapshots_sound (hE : H.pipeline.count .inMemoryEventStorage = 1)
    (hT : H.aggregateType.RestoresSnapshots)
    (h : H.machine.ReachIf (fun s a => Regular s a ∧ MakesSnapshots H s a ∧ InTurn s a) s)
    (hahead : ∀ c, s.ahead c = []) {id : I} {S : Event I V}
    (hS : s.world.storages.snapshotStorage.getAggregateSnapshot id = some S)
    (hsuf : H.aggregateType.Sufficient (H.aggregateType.state id) (stored s.log id)) :
    IsSound H s.log id S := by
  obtain ⟨stream, hD, hC⟩ := (reach_covered True hE (fun _ => hT)
    (h.mono fun s a ⟨hR, hM, hI⟩ => ⟨hR.neverIgnores, fun _ => hR, hM, hI⟩)).resolve_left
      (not_clash hahead)
  obtain ⟨hp, k, hk, hSk, ht⟩ := hD.snapshots id S hS
  have htaken := hD.taken trivial hp id
  -- what is left out of the stream changes nothing
  have hall : H.aggregateType.Sufficient (H.aggregateType.state id) (stored stream id) := by
    have hth := hD.log_thinned id
    rw [hC.stored_eq hD hahead id] at hth
    exact AggregateType.sufficient_of_thinned hth
      (fun j e hj he hsuf => htaken.mutateState hT hj he.2 hsuf) hsuf
  have hsame := (AggregateType.stateAfter_thinned (hD.storedBelow_thinned hC hahead id k)
    (AggregateType.TakenIn.idle (fun e he => ⟨he.2, hT, htaken⟩) (hall.take k))).1
  refine ⟨k, hk, ?_⟩
  rw [AggregateType.fold_state, hsame]
  exact htaken k S hSk ht (hall.take k)

section Runs

/-- An aggregate that adds up what it is told, and throws at what is too large. -/
def adding (restoresFrom : Option (List String)) : CommandHandlers String ℕ ℕ where
  aggregateType := {
    state := fun _ => 0
    handler := fun state event => (state + event.payload, event.payload < 10)
    makeSnapshot := some
    restoreSnapshot := fun _ payload => some payload
    restoresFrom }
  lockName := id
  newId := id

def executeAdd (c : ℕ) : Action String ℕ :=
  .execute c 0 { type := "add", aggregateId := some "a", payload := 0 }

/-- A call alone adds a number. -/
def addAlone (c n : ℕ) : List (Action String ℕ) :=
  [executeAdd c, .lease c, .restore { owner := .cache 0 "a", serial := c }, .handle c,
    .emit c "added" n, .handlerReturns c false, .process c, .process c]

/-- The first call goes on after a failed `emit`, and the second works on the same instance. -/
def addAfterThrow : List (Action String ℕ) :=
  [executeAdd 0, .lease 0, .restore { owner := .cache 0 "a", serial := 0 }, .handle 0,
    .emit 0 "added" 20, .emit 0 "added" 5, .handlerReturns 0 false, executeAdd 1, .process 0,
    .process 0, .acquire 1, .lease 1, .handle 1, .emit 1 "added" 6, .handlerReturns 1 false,
    .process 1, .process 1]

theorem commits_from_fold_fails :
    (¬ ∀ (H : CommandHandlers String ℕ ℕ) (s : Sys String ℕ ℕ),
      H.pipeline = [.inMemoryEventStorage] → H.machine.ReachIf Regular s →
        ∀ commit ∈ s.commits, FromFold H s.log commit)
    ∧ ¬ ∀ (H : CommandHandlers String ℕ ℕ) (s : Sys String ℕ ℕ),
      H.pipeline = [.inMemoryEventStorage] → H.aggregateType.restoresFrom = none →
        H.machine.ReachIf NeverIgnores s → ∀ commit ∈ s.commits, FromFold H s.log commit := by
  constructor <;> intro hall
  · -- the third call starts from the last event alone
    obtain ⟨s, hs, commit, hc, hne⟩ : ∃ s, (adding (some ["created"])).machine.run {}
        (addAlone 0 5 ++ addAlone 1 6 ++ addAlone 2 7) = some s
        ∧ ∃ commit, s.commits[2]? = some commit
          ∧ ¬ FromFold (adding (some ["created"])) s.log commit :=
      ⟨_, rfl, _, rfl, fun h => absurd h.2 (by decide)⟩
    have h := (Machine.ReachIf.init (C := Regular) rfl).run (by decide) hs
    exact hne (hall _ _ rfl h _ (List.mem_of_getElem? hc))
  · -- the second call starts from what the failed `emit` left
    obtain ⟨s, hs, commit, hc, hne⟩ : ∃ s, (adding none).machine.run {} addAfterThrow = some s
        ∧ ∃ commit, s.commits[1]? = some commit ∧ ¬ FromFold (adding none) s.log commit :=
      ⟨_, rfl, _, rfl, fun h => absurd h.2 (by decide)⟩
    have h := (Machine.ReachIf.init (C := NeverIgnores) rfl).run (by decide) hs
    exact hne (hall _ _ rfl rfl h _ (List.mem_of_getElem? hc))

/-- Three calls one after the other, of a class that restores from all event types. -/
theorem commits_from_fold_thrice : ∃ s : Sys String ℕ ℕ,
    s.commits.length = 3 ∧ ∀ commit ∈ s.commits, FromFold (adding none) s.log commit := by
  obtain ⟨s, hs⟩ : ∃ s, (adding none).machine.run {}
      (addAlone 0 5 ++ addAlone 1 6 ++ addAlone 2 7) = some s := ⟨_, rfl⟩
  have hR := (Machine.ReachIf.init (C := Regular) rfl).run (by decide) hs
  have hlen : s.commits.length = 3 := by
    cases hs
    rfl
  exact ⟨s, hlen, fun commit hc => (commits_from_fold rfl
    (hR.mono fun _ _ h => h.neverIgnores)).2.2.2 hR commit hc
      (AggregateType.sufficient_of_restores (fun _ => rfl) _ _)⟩

def addingTo (pipeline : List Stage) : CommandHandlers String ℕ ℕ := { adding none with pipeline }

def executeAddAt (h : ℕ) : Action String ℕ :=
  .execute h h { type := "add", aggregateId := some "a", payload := 0 }

/-- A handler adds a number and takes a snapshot, while another handler commits first. -/
def snapshotRejected : List (Action String ℕ) :=
  [executeAddAt 0, .lease 0, .restore { owner := .cache 0 "a", serial := 0 }, .handle 0,
    .emit 0 "added" 5, .handlerReturns 0 true,
    executeAddAt 1, .lease 1, .restore { owner := .cache 1 "a", serial := 1 }, .handle 1,
    .emit 1 "added" 6, .handlerReturns 1 false, .process 1, .process 1, .process 1, .process 1,
    .process 0, .process 0, .process 0, .process 0, .settle 0 .no]

/-- A handler reads the events when another's batch is committed and its snapshot saved, having
found no snapshot before. A third restores from the snapshot. -/
def snapshotPassed : List (Action String ℕ) :=
  [executeAddAt 0, .lease 0, .restore { owner := .cache 0 "a", serial := 0 }, .handle 0,
    .emit 0 "added" 5, .handlerReturns 0 true, executeAddAt 1, .lease 1,
    .process 0, .process 0, .process 0, .process 0, .process 0,
    .restore { owner := .cache 1 "a", serial := 1 }, .handle 1, .emit 1 "added" 6,
    .handlerReturns 1 false, .process 1, .process 1, .process 1, .process 1,
    executeAddAt 2, .lease 2, .restore { owner := .cache 2 "a", serial := 2 }, .handle 2,
    .emit 2 "added" 2, .handlerReturns 2 true, .process 2, .process 2, .process 2, .process 2,
    .process 2]

/-- The event storage rejects no batch. -/
def RejectsNone (s : Sys I V σ) : Action I V → Prop
  | .process c => ∀ call ∈ s.calls c, ∀ batch ∈ call.phase.storing,
    ¬ InMemoryEventStorage.Conflicts s.world.storages.eventStorage batch.2 false
  | _ => True

instance : ∀ (s : Sys I V σ) (a : Action I V), Decidable (RejectsNone s a)
  | s, .process c => inferInstanceAs (Decidable (∀ call ∈ s.calls c, _))
  | _, .emit .. | _, .settle .. | _, .append _ | _, .handlerReturns .. | _, .execute ..
  | _, .acquire _ | _, .lease _ | _, .restore _ | _, .restoreFails _ | _, .handle _
  | _, .takeSnapshot _ | _, .handlerThrows _ => inferInstanceAs (Decidable True)

/-- With the snapshot storage first, the snapshot of a rejected batch stays: it is out of the batch
that is reverted. And a snapshot that is out of a batch leaves its version to another batch, which
is passed over in what is restored from the snapshot. -/
theorem snapshots_sound_fails :
    (¬ ∀ (H : CommandHandlers String ℕ ℕ) (s : Sys String ℕ ℕ),
      H.pipeline = [.inMemorySnapshotStorage, .inMemoryEventStorage] →
      H.aggregateType.RestoresSnapshots → H.aggregateType.restoresFrom = none →
      H.machine.ReachIf Regular s → (∀ c, s.calls c = none) → ∀ id S,
        s.world.storages.snapshotStorage.getAggregateSnapshot id = some S → IsSound H s.log id S)
    ∧ ¬ ∀ (H : CommandHandlers String ℕ ℕ) (s : Sys String ℕ ℕ),
      H.pipeline = [.inMemorySnapshotStorage, .inMemoryEventStorage] →
      H.aggregateType.RestoresSnapshots → H.aggregateType.restoresFrom = none →
      H.machine.ReachIf (fun s a => Regular s a ∧ RejectsNone s a) s → (∀ c, s.calls c = none) →
        ∀ id S, s.world.storages.snapshotStorage.getAggregateSnapshot id = some S →
          IsSound H s.log id S := by
  have hT : (adding none).aggregateType.RestoresSnapshots := fun _ _ _ h => ⟨h.symm, h.symm⟩
  constructor <;> intro hall
  · obtain ⟨s, hs, hcalls, S, hS, hversion, hne⟩ : ∃ s,
        (addingTo [.inMemorySnapshotStorage, .inMemoryEventStorage]).machine.run {}
          snapshotRejected = some s
        ∧ (∀ c, s.calls c = none)
        ∧ ∃ S, s.world.storages.snapshotStorage.getAggregateSnapshot "a" = some S
          ∧ S.aggregateVersion = some 1
          ∧ ((adding none).aggregateType.fold "a" (storedBelow s.log "a" 1)).state ≠ S.payload :=
      ⟨_, rfl, fun | 0 => rfl | 1 => rfl | _ + 2 => rfl, _, rfl, rfl, by decide⟩
    have h := (Machine.ReachIf.init (C := Regular) rfl).run (by decide) hs
    obtain ⟨k, hk, hpayload⟩ := hall (addingTo _) s rfl hT rfl h hcalls "a" S hS
    obtain rfl : 1 = k := Option.some.inj (hversion.symm.trans hk)
    exact hne (Option.some.inj hpayload)
  · obtain ⟨s, hs, hcalls, S, hS, hversion, hne⟩ : ∃ s,
        (addingTo [.inMemorySnapshotStorage, .inMemoryEventStorage]).machine.run {} snapshotPassed =
          some s
        ∧ (∀ c, s.calls c = none)
        ∧ ∃ S, s.world.storages.snapshotStorage.getAggregateSnapshot "a" = some S
          ∧ S.aggregateVersion = some 3
          ∧ ((adding none).aggregateType.fold "a" (storedBelow s.log "a" 3)).state ≠ S.payload :=
      ⟨_, rfl, fun | 0 => rfl | 1 => rfl | 2 => rfl | _ + 3 => rfl, _, rfl, rfl, by decide⟩
    have h := (Machine.ReachIf.init (C := fun s a => Regular s a ∧ RejectsNone s a) rfl).run
      (by decide) hs
    obtain ⟨k, hk, hpayload⟩ := hall (addingTo _) s rfl hT rfl h hcalls "a" S hS
    obtain rfl : 3 = k := Option.some.inj (hversion.symm.trans hk)
    exact hne (Option.some.inj hpayload)

/-- A handler alone adds a number and takes a snapshot. -/
def addWithSnapshot (h n : ℕ) : List (Action String ℕ) :=
  [executeAddAt h, .lease h, .restore { owner := .cache h "a", serial := h }, .handle h,
    .emit h "added" n, .handlerReturns h true, .process h, .process h, .process h, .process h,
    .process h]

/-- In either order of the storages the snapshot of the second of two handlers is sound. -/
theorem snapshots_sound_twice :
    (∃ s S, (addingTo [.inMemoryEventStorage, .inMemorySnapshotStorage]).machine.run {}
        (addWithSnapshot 0 5 ++ addWithSnapshot 1 6) = some s
      ∧ s.world.storages.snapshotStorage.getAggregateSnapshot "a" = some S ∧ S.payload = 11
      ∧ IsSound (adding none) s.log "a" S)
    ∧ ∃ s S, (addingTo [.inMemorySnapshotStorage, .inMemoryEventStorage]).machine.run {}
        (addWithSnapshot 0 5 ++ addWithSnapshot 1 6) = some s
      ∧ s.world.storages.snapshotStorage.getAggregateSnapshot "a" = some S ∧ S.payload = 11
      ∧ IsSound (adding none) s.log "a" S := by
  have hT : (adding none).aggregateType.RestoresSnapshots := fun _ _ _ h => ⟨h.symm, h.symm⟩
  have hsuf : ∀ events, (adding none).aggregateType.Sufficient 0 events :=
    AggregateType.sufficient_of_restores (fun _ => rfl) 0
  constructor
  · let H := addingTo [.inMemoryEventStorage, .inMemorySnapshotStorage]
    obtain ⟨s, hs, hahead, S, hS, hsum⟩ : ∃ s,
        (addingTo [.inMemoryEventStorage, .inMemorySnapshotStorage]).machine.run {}
          (addWithSnapshot 0 5 ++ addWithSnapshot 1 6) = some s
        ∧ (∀ c, s.ahead c = [])
        ∧ ∃ S, s.world.storages.snapshotStorage.getAggregateSnapshot "a" = some S
          ∧ S.payload = 11 :=
      ⟨_, rfl, fun | 0 => rfl | 1 => rfl | _ + 2 => rfl, _, rfl, rfl⟩
    have h := (Machine.ReachIf.init (C := fun s a => Regular s a ∧ MakesSnapshots H s a
      ∧ InTurn s a) rfl).run (by decide) hs
    exact ⟨s, S, hs, hS, hsum, snapshots_sound (H := H) rfl hT h hahead hS (hsuf _)⟩
  · let H := addingTo [.inMemorySnapshotStorage, .inMemoryEventStorage]
    obtain ⟨s, hs, hahead, S, hS, hsum⟩ : ∃ s,
        (addingTo [.inMemorySnapshotStorage, .inMemoryEventStorage]).machine.run {}
          (addWithSnapshot 0 5 ++ addWithSnapshot 1 6) = some s
        ∧ (∀ c, s.ahead c = [])
        ∧ ∃ S, s.world.storages.snapshotStorage.getAggregateSnapshot "a" = some S
          ∧ S.payload = 11 :=
      ⟨_, rfl, fun | 0 => rfl | 1 => rfl | _ + 2 => rfl, _, rfl, rfl⟩
    have h := (Machine.ReachIf.init (C := fun s a => Regular s a ∧ MakesSnapshots H s a
      ∧ InTurn s a) rfl).run (by decide) hs
    exact ⟨s, S, hs, hS, hsum, snapshots_sound (H := H) rfl hT h hahead hS (hsuf _)⟩

end Runs

end CommandHandlers

end NodeCqrs
