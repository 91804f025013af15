import NodeCqrs.Aggregate
import NodeCqrs.EventDispatcher
import NodeCqrs.Lib.Machine
import NodeCqrs.Utils.Lock
import NodeCqrs.Utils.MapAssertable

/-!
# Command handlers over one event storage

Any number of `AggregateCommandHandler`s of one aggregate type, each with its own cache and lock and
with an event store of its own, over shared in-memory storages. `execute` calls go on from one
await to the next in any order; what a command's handler emits, when it throws, and what the retry
resolver decides are up to the environment. The system also keeps the batches that were committed,
what the handlers that emitted them called, and of each instance the events it has applied.
-/

namespace NodeCqrs

/-- The processors a dispatch pipeline is built from. -/
inductive Stage
  | inMemoryEventStorage
  | inMemorySnapshotStorage
deriving DecidableEq, Repr

/-- `RetryOnConcurrencyErrorDecision` -/
inductive RetryOnConcurrencyErrorDecision
  | no
  | yes
  | ignore
deriving DecidableEq, Repr

/-- Who had an instance made: a handler, for its cache, or a call, for itself. -/
inductive Owner (I : Type)
  | cache (handler : ℕ) (aggregateId : I)
  | call (c : ℕ)
deriving DecidableEq, Repr

/-- An aggregate instance, or the promise of one. -/
structure Ref (I : Type) where
  owner : Owner I
  serial : ℕ
deriving DecidableEq, Repr

/-- What a promise of an instance has come to. A restoration has read the snapshot storage, and
reads the events next. -/
inductive Instance (I V σ : Type)
  | restoring (aggregateId : I) (snapshot : Option (Event I V))
  | ready (aggregate : Aggregate I V σ) (applied : List (Event I V))
  | failed

/-- Where a dispatched batch is: at the processors still to run, in the snapshot storage with the
snapshot events still to save, or being reverted. -/
inductive Dispatching (I V : Type)
  | processing (processors : List Stage) (data : List (Envelope I V))
  | saving (processors : List Stage) (data : List (Envelope I V)) (todo : List (Event I V))
  | reverting (todo : List (Event I V)) (error : DispatchError I)

/-- The instance an attempt works on, with what it was when `handle` began, what the handler has
called since, and what `shouldTakeSnapshot` was at its end. -/
structure Attempt (I V σ : Type) where
  ref : Ref I
  start : Aggregate I V σ
  eventsOffset : ℕ
  methods : List (Method V) := []
  shouldTakeSnapshot : Bool := false

/-- What an `execute` call awaits. `emitThrew` says that an `emit` of the handler has thrown. -/
inductive Phase (I V σ : Type)
  | acquiring (awaits : Acquiring)
  | aggregate (ref : Option (Ref I))
  | handler (attempt : Attempt I V σ) (emitThrew : Bool)
  | dispatch (attempt : Attempt I V σ) (events : List (Event I V)) (ignoreConcurrencyError : Bool)
      (awaits : Dispatching I V)

structure Call (I V σ : Type) where
  handler : ℕ
  cmd : Command I V
  attempts : ℕ := 0
  phase : Phase I V σ

/-- A batch that was emitted, and what of it the event storage has appended. -/
structure Commit (I V σ : Type) where
  handler : ℕ
  cmd : Command I V
  attempt : Attempt I V σ
  emitted : List (Event I V)
  events : List (Event I V)

/-- A handler's `#aggregatesCache`, where a factory restores the aggregate it is kept with, and its
`#executionLock`. -/
structure AggregateCommandHandler (I : Type) where
  aggregatesCache : MapAssertable I (Ref I) I := {}
  executionLock : Lock := {}

/-- The storages and the aggregate instances. -/
structure World (I V σ : Type) where
  storages : Storages I V := {}
  nextRef : ℕ := 0
  instances : Ref I → Option (Instance I V σ) := fun _ => none

/-- What the handlers have in common: `lockName` is `String(aggregateId)`, and `newId` makes an
identifier of the event storage's number. -/
structure CommandHandlers (I V σ : Type) where
  aggregateType : AggregateType I V σ
  pipeline : List Stage := [.inMemoryEventStorage]
  lockName : I → String
  newId : String → I

namespace CommandHandlers

structure Sys (I V σ : Type) where
  world : World I V σ := {}
  handlers : ℕ → AggregateCommandHandler I := fun _ => {}
  calls : ℕ → Option (Call I V σ) := fun _ => none
  commits : List (Commit I V σ) := []

/-- `acquire` goes on with a call's `executionLock.acquire`, `lease` with what follows it, and
`process` with its dispatch. `handlerReturns` says what `shouldTakeSnapshot` is, and `settle` what
the resolver decides after a failed dispatch. `append` is another writer's. -/
inductive Action (I V : Type)
  | execute (c h : ℕ) (cmd : Command I V)
  | acquire (c : ℕ)
  | lease (c : ℕ)
  | restore (ref : Ref I)
  | restoreFails (ref : Ref I)
  | handle (c : ℕ)
  | emit (c : ℕ) (type : String) (payload : V)
  | takeSnapshot (c : ℕ)
  | handlerThrows (c : ℕ)
  | handlerReturns (c : ℕ) (shouldTakeSnapshot : Bool)
  | process (c : ℕ)
  | settle (c : ℕ) (decision : RetryOnConcurrencyErrorDecision)
  | append (events : List (Event I V))

end CommandHandlers

variable {I V σ : Type} [DecidableEq I]

namespace World

def setInstance (w : World I V σ) (ref : Ref I) (i : Instance I V σ) : World I V σ :=
  { w with instances := Function.update w.instances ref (some i) }

omit [DecidableEq I] in
def setEventStorage (w : World I V σ) (eventStorage : InMemoryEventStorage I V) : World I V σ :=
  { w with storages := { w.storages with eventStorage } }

omit [DecidableEq I] in
def setSnapshotStorage (w : World I V σ) (snapshotStorage : InMemorySnapshotStorage I V) :
    World I V σ :=
  { w with storages := { w.storages with snapshotStorage } }

/-- A new instance of the owner's. -/
def make (w : World I V σ) (owner : Owner I) (i : Instance I V σ) : World I V σ × Ref I :=
  let ref : Ref I := { owner, serial := w.nextRef }
  ({ w.setInstance ref i with nextRef := w.nextRef + 1 }, ref)

/-- `#restoreAggregate` up to its first wait. -/
def restoreAggregate (handler : ℕ) (id : I) (w : World I V σ) : World I V σ × Ref I :=
  w.make (.cache handler id) (.restoring id (w.storages.snapshotStorage.getAggregateSnapshot id))

end World

namespace CommandHandlers

namespace Sys

omit [DecidableEq I] in
def setCall (s : Sys I V σ) (c : ℕ) (call : Call I V σ) : Sys I V σ :=
  { s with calls := Function.update s.calls c (some call) }

omit [DecidableEq I] in
def clearCall (s : Sys I V σ) (c : ℕ) : Sys I V σ :=
  { s with calls := Function.update s.calls c none }

omit [DecidableEq I] in
def cache (s : Sys I V σ) (h : ℕ) : MapAssertable I (Ref I) I := (s.handlers h).aggregatesCache

omit [DecidableEq I] in
def lock (s : Sys I V σ) (h : ℕ) : Lock := (s.handlers h).executionLock

omit [DecidableEq I] in
def setCache (s : Sys I V σ) (h : ℕ) (aggregatesCache : MapAssertable I (Ref I) I) :
    Sys I V σ :=
  { s with handlers := Function.update s.handlers h { s.handlers h with aggregatesCache } }

omit [DecidableEq I] in
def setLock (s : Sys I V σ) (h : ℕ) (executionLock : Lock) : Sys I V σ :=
  { s with handlers := Function.update s.handlers h { s.handlers h with executionLock } }

omit [DecidableEq I] in
def setWorld (s : Sys I V σ) (world : World I V σ) : Sys I V σ := { s with world }

omit [DecidableEq I] in
def addCommit (s : Sys I V σ) (commit : Commit I V σ) : Sys I V σ :=
  { s with commits := s.commits ++ [commit] }

omit [DecidableEq I] in
/-- The call is at another await. -/
def goOn (s : Sys I V σ) (c : ℕ) (call : Call I V σ) (phase : Phase I V σ) : Sys I V σ :=
  s.setCall c { call with phase }

end Sys

omit [DecidableEq I] in
/-- The aggregate a call has a lock and a cache entry of, if its command names one. -/
def aggregateId [Truthy I] (call : Call I V σ) : Option I :=
  call.cmd.aggregateId.filter (truthy ·)

variable [Truthy I] (H : CommandHandlers I V σ)

/-- `#allocateCacheEntry` -/
def allocateCacheEntry (s : Sys I V σ) (h : ℕ) (id : I) : Sys I V σ :=
  let (aggregatesCache, world, _) :=
    (s.cache h).assert (World.restoreAggregate h) id id s.world
  (s.setWorld world).setCache h aggregatesCache

/-- `#resetCacheEntry` -/
def resetCacheEntry (s : Sys I V σ) (call : Call I V σ) : Sys I V σ :=
  match aggregateId call with
  | none => s
  | some id => s.setCache call.handler ((s.cache call.handler).setLazy id id)

/-- `#aggregatesCache.get` -/
def getCacheEntry (s : Sys I V σ) (h : ℕ) (id : I) : Sys I V σ × Option (Ref I) :=
  let (aggregatesCache, world, ref) := (s.cache h).get (World.restoreAggregate h) id s.world
  ((s.setWorld world).setCache h aggregatesCache, ref)

/-- The start of an attempt: the cache's instance, or `#createAggregate`. -/
def getAggregate (s : Sys I V σ) (c : ℕ) (call : Call I V σ) : Sys I V σ :=
  match aggregateId call with
  | some id =>
    let (s', ref) := getCacheEntry s call.handler id
    s'.goOn c call (.aggregate ref)
  | none =>
    let (eventStorage, id) := s.world.storages.eventStorage.getNewId
    let (world, ref) := (s.world.setEventStorage eventStorage).make (.call c)
      (.ready (H.aggregateType.create (H.newId id)) [])
    (s.setWorld world).goOn c call (.aggregate (some ref))

/-- `execute` up to its first wait. -/
def execute (s : Sys I V σ) (c h : ℕ) (cmd : Command I V) : Sys I V σ :=
  let call : Call I V σ := { handler := h, cmd, phase := .aggregate none }
  match aggregateId call with
  | none => H.getAggregate s c call
  | some id =>
    let s := allocateCacheEntry s h id
    let (executionLock, awaits) := (s.lock h).acquire (H.lockName id)
    (s.setLock h executionLock).goOn c call (.acquiring awaits)

/-- The `finally` of `execute`. -/
def finish (s : Sys I V σ) (c : ℕ) (call : Call I V σ) : Sys I V σ :=
  match aggregateId call with
  | none => s.clearCall c
  | some id =>
    let s := s.setLock call.handler ((s.lock call.handler).release (H.lockName id))
    (s.setCache call.handler ((s.cache call.handler).release id)).clearCall c

/-- What `aggregate.handle` throws ends the call and drops the instance. -/
def throwFrom (s : Sys I V σ) (c : ℕ) (call : Call I V σ) : Sys I V σ :=
  H.finish (resetCacheEntry s call) c call

variable [Truthy V]

/-- `EventDispatcher.dispatch` up to its first wait. -/
def dispatch (events : List (Event I V)) (ignoreConcurrencyError : Bool) : Dispatching I V :=
  if !isEventSet events || events.isEmpty then
    .reverting [] (.typeError "dispatch requires a non-empty array of events")
  else .processing H.pipeline (EventDispatcher.envelopes events ignoreConcurrencyError)

omit [DecidableEq I] [Truthy I] in
/-- The snapshot events whose snapshots `EventDispatchPipeline.revert` deletes. -/
def toRevert (data : List (Envelope I V)) : List (Event I V) :=
  H.pipeline.flatMap fun
    | .inMemoryEventStorage => []
    | .inMemorySnapshotStorage => InMemorySnapshotStorage.snapshotEvents data

/-- A method of the instance a handler works on, which has applied what it emitted. -/
def callAggregate (s : Sys I V σ) (c : ℕ) (call : Call I V σ) (method : Method V) :
    Option (Sys I V σ) :=
  match call.phase with
  | .handler attempt emitThrew =>
    match s.world.instances attempt.ref with
    | some (.ready aggregate applied) =>
      let (aggregate', returned) := H.aggregateType.callMethod aggregate method
      some ((s.setWorld (s.world.setInstance attempt.ref (.ready aggregate'
        (applied ++ aggregate'.changes.drop aggregate.changes.length)))).goOn c call
          (.handler { attempt with methods := attempt.methods ++ [method] }
            (emitThrew || !returned)))
    | _ => none
  | _ => none

/-- `execute` from the awaited instance to the handler's start. -/
def handle (s : Sys I V σ) (c : ℕ) (call : Call I V σ) : Option (Sys I V σ) :=
  match call.phase with
  | .aggregate none => some (H.throwFrom s c call)
  | .aggregate (some ref) =>
    match s.world.instances ref with
    | some (.ready aggregate applied) =>
      match aggregate.handle call.cmd with
      | none => some (H.throwFrom s c call)
      | some (aggregate', eventsOffset) =>
        some ((s.setWorld (s.world.setInstance ref (.ready aggregate' applied))).goOn c call
          (.handler { ref, start := aggregate, eventsOffset } false))
    | some .failed => some (H.finish s c call)
    | _ => none
  | _ => none

/-- `execute` from the handler's end to the dispatch of what it emitted, where `method` is what
`handle` does of it: it says what was emitted, or throws. -/
def handlerEnds (s : Sys I V σ) (c : ℕ) (call : Call I V σ) (shouldTakeSnapshot : Bool)
    (method : Attempt I V σ → Aggregate I V σ → Aggregate I V σ × Option (List (Event I V))) :
    Option (Sys I V σ) :=
  match call.phase with
  | .handler attempt _ =>
    match s.world.instances attempt.ref with
    | some (.ready aggregate applied) =>
      let (aggregate', result) := method attempt aggregate
      let s := s.setWorld (s.world.setInstance attempt.ref
        (.ready { aggregate' with command := none }
          (applied ++ aggregate'.changes.drop aggregate.changes.length)))
      match result with
      | none => some (H.throwFrom s c call)
      | some [] => some (H.finish s c call)
      | some events =>
        some (s.goOn c call
          (.dispatch { attempt with shouldTakeSnapshot } events false (H.dispatch events false)))
    | _ => none
  | _ => none

/-- The dispatch of a call's events goes on by one storage operation. -/
def process (s : Sys I V σ) (c : ℕ) (call : Call I V σ) : Option (Sys I V σ) :=
  match call.phase with
  | .dispatch attempt events ignoreConcurrencyError awaits =>
    let goOn (s : Sys I V σ) (awaits : Dispatching I V) : Option (Sys I V σ) :=
      some (s.goOn c call (.dispatch attempt events ignoreConcurrencyError awaits))
    match awaits with
    | .processing [] _ => some (H.finish s c call)
    | .processing (.inMemoryEventStorage :: processors) data =>
      match s.world.storages.eventStorage.process data with
      | (eventStorage, .ok data') =>
        goOn ((s.setWorld (s.world.setEventStorage eventStorage)).addCommit {
          handler := call.handler
          cmd := call.cmd
          attempt
          emitted := events
          events := data.filterMap (·.event) }) (.processing processors data')
      | (_, .error error) => goOn s (.reverting (H.toRevert data) error)
    | .processing (.inMemorySnapshotStorage :: processors) data =>
      goOn s (.saving processors data (InMemorySnapshotStorage.snapshotEvents data))
    | .saving processors data [] =>
      goOn s (.processing processors (InMemorySnapshotStorage.withoutSnapshots data))
    | .saving processors data (event :: todo) =>
      match s.world.storages.snapshotStorage.saveAggregateSnapshot event with
      | .ok snapshotStorage =>
        goOn (s.setWorld (s.world.setSnapshotStorage snapshotStorage))
          (.saving processors data todo)
      | .error error => goOn s (.reverting (H.toRevert data) error)
    | .reverting (event :: todo) error =>
      match s.world.storages.snapshotStorage.deleteAggregateSnapshot event with
      | .ok snapshotStorage =>
        goOn (s.setWorld (s.world.setSnapshotStorage snapshotStorage)) (.reverting todo error)
      | .error publishError => goOn s (.reverting [] publishError)
    | .reverting [] _ => none
  | _ => none

/-- `execute` from a failed dispatch on. -/
def settle (s : Sys I V σ) (c : ℕ) (call : Call I V σ)
    (decision : RetryOnConcurrencyErrorDecision) : Option (Sys I V σ) :=
  match call.phase with
  | .dispatch attempt events ignoreConcurrencyError (.reverting [] _) =>
    if ignoreConcurrencyError then some (H.finish s c call)
    else
      let s := resetCacheEntry s call
      match decision with
      | .no => some (H.finish s c call)
      | .yes => some (H.getAggregate s c { call with attempts := call.attempts + 1 })
      | .ignore =>
        if events.isEmpty then some (H.finish s c call)
        else some (s.goOn c call (.dispatch attempt events true (H.dispatch events true)))
  | _ => none

/-- The lock of a call that awaits it is asked again. -/
def acquire (s : Sys I V σ) (c : ℕ) (call : Call I V σ) : Option (Sys I V σ) :=
  match call.phase, aggregateId call with
  | .acquiring awaits, some id =>
    ((s.lock call.handler).resume (H.lockName id) awaits).map fun (executionLock, awaits') =>
      (s.setLock call.handler executionLock).goOn c call (.acquiring awaits')
  | _, _ => none

def lease (s : Sys I V σ) (c : ℕ) (call : Call I V σ) : Option (Sys I V σ) :=
  match call.phase with
  | .acquiring .acquired => some (H.getAggregate s c call)
  | _ => none

/-- `#restoreAggregate` from the events' read on. -/
def restore (w : World I V σ) (ref : Ref I) : Option (World I V σ) :=
  match w.instances ref with
  | some (.restoring id snapshot) =>
    let events := H.aggregateType.getAggregateEvents w.storages.eventStorage.events id snapshot
    match H.aggregateType.mutateAll (H.aggregateType.create id) events with
    | some aggregate => some (w.setInstance ref (.ready aggregate events))
    | none => some (w.setInstance ref .failed)
  | _ => none

def step (s : Sys I V σ) : Action I V → Option (Sys I V σ)
  | .execute c h cmd =>
    if (s.calls c).isNone && cmd.type ≠ "" then some (H.execute s c h cmd) else none
  | .acquire c => (s.calls c).bind (H.acquire s c)
  | .lease c => (s.calls c).bind (H.lease s c)
  | .restore ref => (H.restore s.world ref).map s.setWorld
  | .restoreFails ref =>
    match s.world.instances ref with
    | some (.restoring _ _) => some (s.setWorld (s.world.setInstance ref .failed))
    | _ => none
  | .handle c => (s.calls c).bind (H.handle s c)
  | .emit c type payload => (s.calls c).bind fun call =>
    H.callAggregate s c call (.emit type payload)
  | .takeSnapshot c => (s.calls c).bind fun call => H.callAggregate s c call .takeSnapshot
  | .handlerThrows c => (s.calls c).bind fun call =>
    H.handlerEnds s c call false fun _ aggregate => (aggregate, none)
  | .handlerReturns c shouldTakeSnapshot => (s.calls c).bind fun call =>
    H.handlerEnds s c call shouldTakeSnapshot fun attempt aggregate =>
      H.aggregateType.getUncommittedEvents aggregate shouldTakeSnapshot attempt.eventsOffset
  | .process c => (s.calls c).bind (H.process s c)
  | .settle c decision => (s.calls c).bind fun call => H.settle s c call decision
  | .append events => some (s.setWorld (s.world.setEventStorage
      { s.world.storages.eventStorage with
        events := s.world.storages.eventStorage.events ++ events }))

def machine : Machine (Sys I V σ) (Action I V) := ⟨(· = {}), H.step⟩


end CommandHandlers

end NodeCqrs
