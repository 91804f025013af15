import NodeCqrs.EventDispatcher
import NodeCqrs.Lib.Machine

/-!
# An `AbstractProjection` over an `InMemoryView`, from its start on

`EventStore.dispatch` commits a batch to the `InMemoryEventStorage`, and later, in the order of the
dispatches, publishes it on the `InMemoryMessageBus`. The projection is subscribed, then restored,
at any time; a `project()` call waits for the view to be unlocked. There is no event locker, and
handlers do not fail. Events are told apart by their place in the storage.
-/

namespace NodeCqrs

namespace InMemoryProjecting

variable {I V : Type}

/-- How far `commitEvents` is; `committed` has the place of the batch's first event. -/
inductive Commit
  | awaited
  | committed (offset : ℕ)
  | failed

/-- A batch in the pipeline. -/
structure Dispatch (I V : Type) where
  events : List (Event I V)
  ignoreConcurrencyError : Bool
  commit : Commit := .awaited

/-- Where `restore()` is: it awaits the stream of `getEventsByTypes`, or projects the events at the
places to do. -/
inductive Restore
  | idle
  | getEventsByTypes
  | restoring (todo : List ℕ)
  | restored

/-- `locked` is the lock of the view, `waiting` the `project()` calls that await it, `handled` the
calls to the handler. To state what is handled: how many events `restore()` found, and the places of
the events published before and after `subscribe()`. -/
structure Sys (I V : Type) where
  storage : InMemoryEventStorage I V := {}
  dispatches : List (Dispatch I V) := []
  subscribed : Bool := false
  locked : Bool := false
  restore : Restore := .idle
  waiting : List ℕ := []
  handled : List ℕ := []
  found : Option ℕ := none
  unheard : List ℕ := []
  heard : List ℕ := []

/-- `commit` is what `commitEvents` of a batch in the pipeline does between its waits, `publish` the
pipeline's loop taking the first batch, `read` the stream reading the storage, `next` the loop of
`_restore` going on, and `ready` a `project()` call going on. -/
inductive Action (I V : Type)
  | dispatch (events : List (Event I V)) (ignoreConcurrencyError : Bool)
  | commit (n : ℕ)
  | publish
  | subscribe
  | restore
  | read
  | next
  | ready

/-- `offset` is the place of the first event. -/
def places (events : List (Event I V)) (offset : ℕ) : List ℕ := List.range' offset events.length

variable [Truthy V] (handles : List String)

/-- The bus hands the event to the projection. -/
def hears (event : Event I V) : Bool := event.type ∈ handles && !isSnapshotEvent event

/-- `project()`: it waits for a view that is locked. -/
def project (s : Sys I V) (place : ℕ) : Sys I V :=
  if s.locked then { s with waiting := s.waiting ++ [place] }
  else { s with handled := s.handled ++ [place] }

/-- The loop over the events of a batch. -/
def publish (s : Sys I V) (events : List (Event I V)) (offset : ℕ) : Sys I V :=
  if s.subscribed then
    (events.zipIdx offset).foldl (fun s p => if hears handles p.1 then project s p.2 else s)
      { s with heard := s.heard ++ places events offset }
  else { s with unheard := s.unheard ++ places events offset }

/-- `getEventsByTypes`, as places. -/
def getEventsByTypes (events : List (Event I V)) : List ℕ :=
  (events.zipIdx.filter (·.1.type ∈ handles)).map Prod.snd

variable [DecidableEq I]

def step (s : Sys I V) : Action I V → Option (Sys I V)
  | .dispatch events ignoreConcurrencyError =>
    if !isEventSet events || events.isEmpty then none
    else some { s with dispatches := s.dispatches ++ [{ events, ignoreConcurrencyError }] }
  | .commit n =>
    match s.dispatches[n]? with
    | some { events, ignoreConcurrencyError, commit := .awaited } =>
      match s.storage.commitEvents events ignoreConcurrencyError with
      | .ok storage =>
        let commit := .committed s.storage.events.length
        some { s with
          storage
          dispatches := s.dispatches.set n { events, ignoreConcurrencyError, commit } }
      | .error _ =>
        let commit := .failed
        some { s with
          dispatches := s.dispatches.set n { events, ignoreConcurrencyError, commit } }
    | _ => none
  | .publish =>
    match s.dispatches with
    | { events, commit := .committed offset, .. } :: dispatches =>
      some (publish handles { s with dispatches } events offset)
    | { commit := .failed, .. } :: dispatches => some { s with dispatches }
    | _ => none
  | .subscribe => if s.subscribed then none else some { s with subscribed := true }
  | .restore =>
    match s.restore with
    | .idle =>
      if s.subscribed then some { s with locked := true, restore := .getEventsByTypes } else none
    | _ => none
  | .read =>
    match s.restore with
    | .getEventsByTypes => some { s with
        restore := .restoring (getEventsByTypes handles s.storage.events)
        found := some s.storage.events.length }
    | _ => none
  | .next =>
    match s.restore with
    | .restoring (place :: todo) =>
      some { s with restore := .restoring todo, handled := s.handled ++ [place] }
    | .restoring [] => some { s with restore := .restored, locked := false }
    | _ => none
  | .ready =>
    match s.waiting with
    | place :: waiting =>
      if s.locked then none else some { s with waiting, handled := s.handled ++ [place] }
    | [] => none

/-- An empty storage, a projection not subscribed. -/
def machine : Machine (Sys I V) (Action I V) where
  Init s := s = {}
  step := step handles

/-- All dispatches have been answered, `restore()` has returned, and no `project()` call waits. -/
def Sys.Settled (s : Sys I V) : Prop :=
  s.dispatches = [] ∧ s.restore matches .restored ∧ s.waiting = []

/-- The handler has run once for each event of a type handled. -/
def HandledOnce (s : Sys I V) : Prop :=
  ∀ place event, s.storage.events[place]? = some event → event.type ∈ handles →
    s.handled.count place = 1

end InMemoryProjecting

end NodeCqrs
