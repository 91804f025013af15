import NodeCqrs.InMemory.EventStorage

/-!
# `AbstractAggregate`

An aggregate instance of a class over states `σ`. A method that may throw also says whether it
returned, since what it did before it threw stays done.
-/

namespace NodeCqrs

/-- An `AbstractAggregate` subclass: the state its constructor makes, the handler that state has for
an event (which may throw) and how it is made a snapshot and restored from one (`none` when that
throws). -/
structure AggregateType (I V σ : Type) where
  state : I → σ
  handler : σ → Event I V → σ × Bool
  makeSnapshot : σ → Option V
  restoreSnapshot : σ → V → Option σ
  restoresFrom : Option (List String) := none

structure Aggregate (I V σ : Type) where
  id : I
  version : ℕ := 0
  snapshotVersion : Option ℕ := none
  changes : List (Event I V) := []
  state : σ
  command : Option (Command I V) := none
deriving DecidableEq, Repr

/-- What a command's handler calls. -/
inductive Method (V : Type)
  | emit (type : String) (payload : V)
  | takeSnapshot
deriving DecidableEq, Repr

namespace Aggregate

variable {I V σ : Type}

/-- `makeEvent`, for the command in hand. -/
def makeEvent (a : Aggregate I V σ) (type : String) (payload : V) : Event I V :=
  { type, payload
    aggregateId := some a.id
    aggregateVersion := some a.version
    context := a.command.bind (·.context)
    sagaOrigins := a.command.bind (·.sagaOrigins) }

/-- `handle` up to the handler's call, with `eventsOffset`; it throws while another command is
being processed. -/
def handle (a : Aggregate I V σ) (command : Command I V) : Option (Aggregate I V σ × ℕ) :=
  match a.command with
  | some _ => none
  | none => some ({ a with command := some command }, a.changes.length)

end Aggregate

namespace AggregateType

variable {I V σ : Type} [Truthy V] (T : AggregateType I V σ)

omit [Truthy V] in
/-- `new AggregateType({ id })` -/
def create (id : I) : Aggregate I V σ := { id, state := T.state id }

/-- What `mutate` does to the state. -/
def mutateState (state : σ) (event : Event I V) : σ × Bool :=
  if event.type = SNAPSHOT_EVENT_TYPE then
    match if isSnapshotEvent event then T.restoreSnapshot state event.payload else none with
    | some state' => (state', true)
    | none => (state, false)
  else T.handler state event

/-- `mutate`; one that throws has set the version but not incremented it. -/
def mutate (a : Aggregate I V σ) (event : Event I V) : Aggregate I V σ × Bool :=
  let version := event.aggregateVersion.getD a.version
  let snapshotVersion :=
    if event.type = SNAPSHOT_EVENT_TYPE then event.aggregateVersion else a.snapshotVersion
  let (state, returned) := T.mutateState a.state event
  ({ a with state, snapshotVersion, version := if returned then version + 1 else version },
    returned)

/-- `emit` -/
def emit (a : Aggregate I V σ) (type : String) (payload : V) : Aggregate I V σ × Bool :=
  if type = "" then (a, false)
  else
    let event := a.makeEvent type payload
    match T.mutate a event with
    | (a', true) => ({ a' with changes := a'.changes ++ [event] }, true)
    | (a', false) => (a', false)

def takeSnapshot (a : Aggregate I V σ) : Aggregate I V σ × Bool :=
  match T.makeSnapshot a.state with
  | none => (a, false)
  | some payload =>
    match T.emit a SNAPSHOT_EVENT_TYPE payload with
    | (a', true) => ({ a' with snapshotVersion := some a.version }, true)
    | (a', false) => (a', false)

def callMethod (a : Aggregate I V σ) : Method V → Aggregate I V σ × Bool
  | .emit type payload => T.emit a type payload
  | .takeSnapshot => T.takeSnapshot a

/-- `getUncommittedEvents`, for what `shouldTakeSnapshot` says. -/
def getUncommittedEvents (a : Aggregate I V σ) (shouldTakeSnapshot : Bool) (offset : ℕ) :
    Aggregate I V σ × Option (List (Event I V)) :=
  match if shouldTakeSnapshot then T.takeSnapshot a else (a, true) with
  | (a', true) => (a', some (a'.changes.drop offset))
  | (a', false) => (a', none)

/-- The `emit` calls of a handler, until one throws. -/
def emitAll : Aggregate I V σ → List (String × V) → Aggregate I V σ × Bool
  | a, [] => (a, true)
  | a, (type, payload) :: emitted =>
    match T.emit a type payload with
    | (a', true) => emitAll a' emitted
    | (a', false) => (a', false)

/-- `handle`, for what the command's handler emits and what `shouldTakeSnapshot` then says. -/
def handle (a : Aggregate I V σ) (command : Command I V) (emitted : List (String × V))
    (shouldTakeSnapshot : Bool) : Option (Aggregate I V σ × List (Event I V)) :=
  match a.handle command with
  | none => none
  | some (a, eventsOffset) =>
    match T.emitAll a emitted with
    | (_, false) => none
    | (a, true) =>
      match T.getUncommittedEvents a shouldTakeSnapshot eventsOffset with
      | (_, none) => none
      | (a, some events) => some ({ a with command := none }, events)

/-- `mutate` of one event after the other, until one throws. -/
def mutateAll : Aggregate I V σ → List (Event I V) → Option (Aggregate I V σ)
  | a, [] => some a
  | a, event :: events =>
    match T.mutate a event with
    | (a', true) => mutateAll a' events
    | (_, false) => none

omit [Truthy V] in
/-- The options `#restoreAggregate` and `EventStore.getAggregateEvents` make between them. -/
def queryOptions (snapshot : Option (Event I V)) : AggregateEventsQueryParams I V :=
  match T.restoresFrom with
  | none | some [] => { snapshot }
  | some restoresFrom => { snapshot, eventTypes := some restoresFrom, tailLast := true }

omit [Truthy V] in
/-- What `EventStore.getAggregateEvents` yields: the snapshot, then the stored events past it. -/
def getAggregateEvents [DecidableEq I] (events : List (Event I V)) (aggregateId : I)
    (snapshot : Option (Event I V)) : List (Event I V) :=
  snapshot.toList ++
    InMemoryEventStorage.getAggregateEvents events aggregateId (T.queryOptions snapshot)

/-- The fold of `mutate` over the events. -/
def fold (id : I) (events : List (Event I V)) : Aggregate I V σ :=
  events.foldl (fun a event => (T.mutate a event).1) (T.create id)

end AggregateType

end NodeCqrs
