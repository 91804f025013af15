import NodeCqrs.Aggregate
import NodeCqrs.Lib.Machine

/-!
# Forced commits

Aggregate instances over one in-memory event storage. Each is restored, and then handles commands
one after the other. What a command emitted is a batch, which may be committed at any time after,
with `ignoreConcurrencyError` or without: also after later ones of the instance, more than once, or
not at all. A snapshot is a snapshot event that is stored.
-/

namespace NodeCqrs

variable {I V σ : Type}

/-- An instance, with the offset of the command it handles and what each of those it has handled
emitted. -/
structure Working (I V σ : Type) where
  aggregate : Aggregate I V σ
  eventsOffset : ℕ := 0
  batches : List (List (Event I V)) := []

structure ForcedCommits (I V σ : Type) where
  eventStorage : InMemoryEventStorage I V := {}
  instances : ℕ → Option (Working I V σ) := fun _ => none

namespace Working

/-- A command is taken in hand, unless there is one. -/
def handle (w : Working I V σ) (command : Command I V) : Working I V σ :=
  match w.aggregate.handle command with
  | none => w
  | some (aggregate, eventsOffset) => { w with aggregate, eventsOffset }

/-- A handler calls a method. -/
def call [Truthy V] (T : AggregateType I V σ) (w : Working I V σ) (method : Method V) :
    Working I V σ :=
  { w with aggregate := (T.callMethod w.aggregate method).1 }

/-- The command is handled, or `takeSnapshot` throws. -/
def returns [Truthy V] (T : AggregateType I V σ) (w : Working I V σ)
    (shouldTakeSnapshot : Bool) : Working I V σ :=
  let (aggregate, events) :=
    T.getUncommittedEvents w.aggregate shouldTakeSnapshot w.eventsOffset
  { w with
    aggregate := { aggregate with command := none }
    batches := w.batches ++ events.toList }

def throws (w : Working I V σ) : Working I V σ :=
  { w with aggregate := { w.aggregate with command := none } }

end Working

namespace ForcedCommits

/-- `call` is a method call of a handler, which may catch what it throws; `returns` and `throws` are
the handler's end; and `commit` is of the instance's `k`-th batch. -/
inductive Action (I V : Type)
  | restore (i : ℕ) (id : I) (snapshot : Option (Event I V))
  | handle (i : ℕ) (command : Command I V)
  | call (i : ℕ) (method : Method V)
  | returns (i : ℕ) (shouldTakeSnapshot : Bool)
  | throws (i : ℕ)
  | commit (i k : ℕ) (ignoreConcurrencyError : Bool)

def setInstance (s : ForcedCommits I V σ) (i : ℕ) (w : Option (Working I V σ)) :
    ForcedCommits I V σ :=
  { s with instances := Function.update s.instances i w }

variable [DecidableEq I] [DecidableEq V] [Truthy V] (T : AggregateType I V σ)

/-- What can be in the snapshot storage. -/
def isSnapshotOf (events : List (Event I V)) (id : I) (snapshot : Option (Event I V)) : Bool :=
  snapshot.all fun S =>
    isSnapshotEvent S && S ∈ InMemoryEventStorage.getAggregateEvents events id

/-- `#restoreAggregate`, from the snapshot and the events past it. -/
def restoreAggregate (events : List (Event I V)) (id : I) (snapshot : Option (Event I V)) :
    Option (Aggregate I V σ) :=
  T.mutateAll (T.create id) (T.getAggregateEvents events id snapshot)

def step (s : ForcedCommits I V σ) : Action I V → Option (ForcedCommits I V σ)
  | .restore i id snapshot =>
    if isSnapshotOf s.eventStorage.events id snapshot then
      some (s.setInstance i
        ((restoreAggregate T s.eventStorage.events id snapshot).map fun a => { aggregate := a }))
    else none
  | .handle i command => (s.instances i).map fun w => s.setInstance i (w.handle command)
  | .call i method => (s.instances i).map fun w => s.setInstance i (w.call T method)
  | .returns i shouldTakeSnapshot => (s.instances i).bind fun w =>
    if w.aggregate.command.isSome then some (s.setInstance i (w.returns T shouldTakeSnapshot))
    else none
  | .throws i => (s.instances i).map fun w => s.setInstance i w.throws
  | .commit i k ignoreConcurrencyError => (s.instances i).bind fun w =>
    w.batches[k]?.map fun events =>
      match s.eventStorage.commitEvents events ignoreConcurrencyError with
      | .ok eventStorage => { s with eventStorage }
      | .error _ => s

def machine : Machine (ForcedCommits I V σ) (Action I V) := ⟨(· = {}), step T⟩

end ForcedCommits

end NodeCqrs
