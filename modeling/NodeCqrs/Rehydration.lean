import Mathlib.Data.Finmap
import NodeCqrs.Aggregate
import NodeCqrs.EventDispatcher
import NodeCqrs.Lib.Machine

/-!
# Rehydration

Aggregates whose state is an object with properties, over the in-memory storages. Any number of
instances are restored and handle commands; a step is a command with the dispatch of what was
emitted. What a handler emits and whether a snapshot is taken are up to the environment, but an
event of the snapshots' type is emitted for a snapshot only.
-/

namespace NodeCqrs

/-- The own properties of an object, with values `P`. -/
abbrev Properties (P : Type) : Type := Finmap fun _ : String => P

variable {I P : Type}

instance : Truthy (Properties P) := ⟨fun _ => true⟩

/-- `Object.assign(target, source)` -/
def objectAssign (target source : Properties P) : Properties P := source ∪ target

/-- An `AbstractAggregate` subclass whose state is an object: as its constructor makes it, and as the
handler of an event leaves it. -/
structure PropertiesAggregate (I P : Type) where
  state : I → Properties P
  mutate : Properties P → Event I (Properties P) → Properties P

/-- What `AbstractAggregate` makes of the class; `clone` of an object is the object. -/
def PropertiesAggregate.aggregateType (T : PropertiesAggregate I P) :
    AggregateType I (Properties P) (Properties P) where
  state := T.state
  handler state event := (T.mutate state event, true)
  makeSnapshot state := some state
  restoreSnapshot state payload := some (objectAssign state payload)

structure Rehydration (I P : Type) where
  storages : Storages I (Properties P) := {}
  instances : ℕ → Option (Aggregate I (Properties P) (Properties P)) := fun _ => none

namespace Rehydration

inductive Action (I P : Type)
  | restore (i : ℕ) (id : I)
  | handle (i : ℕ) (command : Command I (Properties P)) (emitted : List (String × Properties P))
      (shouldTakeSnapshot : Bool)

def setInstance (s : Rehydration I P) (i : ℕ)
    (a : Option (Aggregate I (Properties P) (Properties P))) : Rehydration I P :=
  { s with instances := Function.update s.instances i a }

variable [DecidableEq I] [Truthy I]

/-- The event storage before the snapshot storage. -/
def eventDispatchPipeline : List (Processor (Storages I (Properties P)) I (Properties P)) :=
  [Storages.inMemoryEventStorage, Storages.inMemorySnapshotStorage]

variable (T : PropertiesAggregate I P)

/-- A new instance of an id with the events `EventStore.getAggregateEvents` yields after the
snapshot. -/
def rehydrate (s : Rehydration I P) (id : I) (snapshot : Option (Event I (Properties P))) :
    Option (Aggregate I (Properties P) (Properties P)) :=
  T.aggregateType.mutateAll (T.aggregateType.create id)
    (T.aggregateType.getAggregateEvents s.storages.eventStorage.events id snapshot)

def step (s : Rehydration I P) : Action I P → Option (Rehydration I P)
  | .restore i id =>
    -- `assertDefined(id, 'id')`
    if truthy id then
      some (s.setInstance i
        (s.rehydrate T id (s.storages.snapshotStorage.getAggregateSnapshot id)))
    else none
  | .handle i command emitted shouldTakeSnapshot =>
    if SNAPSHOT_EVENT_TYPE ∈ emitted.map Prod.fst then none
    else
      match s.instances i with
      | none => none
      | some a =>
        match T.aggregateType.handle a command emitted shouldTakeSnapshot with
        | none => some (s.setInstance i none)
        | some (a', []) => some (s.setInstance i (some a'))
        | some (a', events) =>
          match EventDispatcher.dispatch eventDispatchPipeline s.storages events with
          | (storages, .ok _) => some ({ s with storages }.setInstance i (some a'))
          | (storages, .error _) => some ({ s with storages }.setInstance i none)

def machine : Machine (Rehydration I P) (Action I P) := ⟨(· = {}), step T⟩

end Rehydration

end NodeCqrs
