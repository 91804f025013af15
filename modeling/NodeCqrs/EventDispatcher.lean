import NodeCqrs.InMemory.SnapshotStorage

/-!
# `EventDispatcher.dispatch` through one pipeline

One batch on its way through a pipeline's processors. A processor that fails leaves the batch as
it was handed to it, the later ones pass it on, and at the end every processor, also one that never
saw the batch, is asked to revert it.
-/

namespace NodeCqrs

variable {I V : Type}

/-- `IDispatchPipelineProcessor`, over the state `S` it works on. -/
structure Processor (S I V : Type) where
  process : S → List (Envelope I V) → S × Except (DispatchError I) (List (Envelope I V))
  revert : S → List (Envelope I V) → S × Option (DispatchError I) := fun s _ => (s, none)

namespace EventDispatchPipeline

variable {S : Type}

/-- What the processors leave of a batch, with the error of the first that failed. -/
def processAll : List (Processor S I V) → S → List (Envelope I V) →
    S × List (Envelope I V) × Option (DispatchError I)
  | [], s, data => (s, data, none)
  | processor :: processors, s, data =>
    match processor.process s data with
    | (s', .ok data') => processAll processors s' data'
    | (s', .error error) => (s', data, some error)

def revert : List (Processor S I V) → S → List (Envelope I V) → S × Option (DispatchError I)
  | [], s, _ => (s, none)
  | processor :: processors, s, batch =>
    match processor.revert s batch with
    | (s', none) => revert processors s' batch
    | (s', some error) => (s', some error)

end EventDispatchPipeline

/-- `isEventSet` -/
def isEventSet (events : List (Event I V)) : Bool := events.all (isEvent ·)

namespace EventDispatcher

/-- The envelopes `dispatch` makes of the events. -/
def envelopes (events : List (Event I V)) (ignoreConcurrencyError : Bool) : List (Envelope I V) :=
  events.map fun event => { event := some event, ignoreConcurrencyError }

variable {S : Type} [Truthy V]

/-- `dispatch`, with the flag its `meta` may carry. -/
def dispatch (processors : List (Processor S I V)) (s : S) (events : List (Event I V))
    (ignoreConcurrencyError : Bool := false) :
    S × Except (DispatchError I) (List (Event I V)) :=
  if !isEventSet events || events.isEmpty then
    (s, .error (.typeError "dispatch requires a non-empty array of events"))
  else
    match EventDispatchPipeline.processAll processors s
      (envelopes events ignoreConcurrencyError) with
    | (s', data', none) =>
      (s', .ok ((data'.filterMap (·.event)).filter fun event => !isSnapshotEvent event))
    | (s', data', some error) =>
      match EventDispatchPipeline.revert processors s' data' with
      | (s'', none) => (s'', .error error)
      | (s'', some publishError) => (s'', .error publishError)

end EventDispatcher

/-- What the processors of the default pipeline work on. -/
structure Storages (I V : Type) where
  eventStorage : InMemoryEventStorage I V := {}
  snapshotStorage : InMemorySnapshotStorage I V := {}

namespace Storages

/-- `EventIdAugmentor.process`, with the event storage as the identifier provider. -/
def augment (s : InMemoryEventStorage I V) :
    List (Envelope I V) → InMemoryEventStorage I V × List (Envelope I V)
  | [] => (s, [])
  | envelope :: batch =>
    match envelope.event with
    | some event =>
      if event.id.any (· ≠ "") then
        let (s', batch') := augment s batch
        (s', envelope :: batch')
      else
        let (s', id) := s.getNewId
        let (s'', batch') := augment s' batch
        (s'', { envelope with event := some { event with id := some id } } :: batch')
    | none =>
      let (s', batch') := augment s batch
      (s', envelope :: batch')

def eventIdAugmentor : Processor (Storages I V) I V where
  process s batch :=
    let (eventStorage, batch') := augment s.eventStorage batch
    ({ s with eventStorage }, .ok batch')

variable [DecidableEq I] [Truthy I] [Truthy V]

def inMemoryEventStorage : Processor (Storages I V) I V where
  process s batch :=
    let (eventStorage, result) := s.eventStorage.process batch
    ({ s with eventStorage }, result)

def inMemorySnapshotStorage : Processor (Storages I V) I V where
  process s batch :=
    let (snapshotStorage, result) := s.snapshotStorage.process batch
    ({ s with snapshotStorage }, result)
  revert s batch :=
    let (snapshotStorage, error) := s.snapshotStorage.revert batch
    ({ s with snapshotStorage }, error)

/-- The default pipeline of `CqrsContainerBuilder`. -/
def eventDispatchPipeline : List (Processor (Storages I V) I V) :=
  [eventIdAugmentor, inMemoryEventStorage, inMemorySnapshotStorage]

end Storages

end NodeCqrs
