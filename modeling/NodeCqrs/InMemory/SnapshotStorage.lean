import Mathlib.Logic.Function.Basic
import NodeCqrs.InMemory.EventStorage

/-!
# `InMemorySnapshotStorage`

One snapshot event an aggregate. As a processor it takes the snapshot events out of a batch, and
what it undoes for a batch is their aggregates' snapshots.
-/

namespace NodeCqrs

structure InMemorySnapshotStorage (I V : Type) where
  snapshots : I → Option (Event I V) := fun _ => none

namespace InMemorySnapshotStorage

variable {I V : Type} [DecidableEq I] [Truthy I] [Truthy V]

omit [DecidableEq I] [Truthy I] [Truthy V] in
def getAggregateSnapshot (s : InMemorySnapshotStorage I V) (aggregateId : I) :
    Option (Event I V) :=
  s.snapshots aggregateId

/-- `assertDefined(snapshotEvent.aggregateId, …)` -/
def assertAggregateId (snapshotEvent : Event I V) : Except (DispatchError I) I :=
  match snapshotEvent.aggregateId.filter (truthy ·) with
  | some aggregateId => .ok aggregateId
  | none => .error (.typeError "snapshotEvent.aggregateId is required")

def saveAggregateSnapshot (s : InMemorySnapshotStorage I V) (snapshotEvent : Event I V) :
    Except (DispatchError I) (InMemorySnapshotStorage I V) :=
  (assertAggregateId snapshotEvent).map fun aggregateId =>
    { s with snapshots := Function.update s.snapshots aggregateId (some snapshotEvent) }

def deleteAggregateSnapshot (s : InMemorySnapshotStorage I V) (snapshotEvent : Event I V) :
    Except (DispatchError I) (InMemorySnapshotStorage I V) :=
  (assertAggregateId snapshotEvent).map fun aggregateId =>
    { s with snapshots := Function.update s.snapshots aggregateId none }

/-- A loop that awaits `f` of each event: an error ends it and leaves what was done before. -/
def forEach {S : Type} (f : S → Event I V → Except (DispatchError I) S) :
    S → List (Event I V) → S × Option (DispatchError I)
  | s, [] => (s, none)
  | s, event :: events =>
    match f s event with
    | .ok s' => forEach f s' events
    | .error error => (s, some error)

omit [DecidableEq I] [Truthy I] in
/-- `batch.map(e => e.event).filter(isSnapshotEvent)` -/
def snapshotEvents (batch : List (Envelope I V)) : List (Event I V) :=
  (batch.filterMap (·.event)).filter (isSnapshotEvent ·)

omit [DecidableEq I] [Truthy I] in
/-- `batch.filter(e => !isSnapshotEvent(e.event))` -/
def withoutSnapshots (batch : List (Envelope I V)) : List (Envelope I V) :=
  batch.filter fun e => !e.event.any (isSnapshotEvent ·)

def process (s : InMemorySnapshotStorage I V) (batch : List (Envelope I V)) :
    InMemorySnapshotStorage I V × Except (DispatchError I) (List (Envelope I V)) :=
  match forEach saveAggregateSnapshot s (snapshotEvents batch) with
  | (s', none) => (s', .ok (withoutSnapshots batch))
  | (s', some error) => (s', .error error)

def revert (s : InMemorySnapshotStorage I V) (batch : List (Envelope I V)) :
    InMemorySnapshotStorage I V × Option (DispatchError I) :=
  forEach deleteAggregateSnapshot s (snapshotEvents batch)

end InMemorySnapshotStorage

end NodeCqrs
