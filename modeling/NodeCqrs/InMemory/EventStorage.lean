import NodeCqrs.Event
import NodeCqrs.Utils.SagaId

/-!
# `InMemoryEventStorage`

The events in the order they were committed. `commitEvents` checks a whole batch against what is
stored and appends it in one step; its waits stand before and after.
-/

namespace NodeCqrs

/-- The errors of the dispatch path. -/
inductive DispatchError (I : Type)
  | typeError (message : String)
  | error (message : String)
  | concurrencyError (aggregateVersion : ℕ) (aggregateId : I)
deriving DecidableEq, Repr

/-- `AggregateEventsQueryParams` -/
structure AggregateEventsQueryParams (I V : Type) where
  snapshot : Option (Event I V) := none
  eventTypes : Option (List String) := none
  tailLast : Bool := false

structure InMemoryEventStorage (I V : Type) where
  nextId : ℕ := 0
  events : List (Event I V) := []

namespace InMemoryEventStorage

variable {I V : Type} [DecidableEq I]

omit [DecidableEq I] in
def getNewId (s : InMemoryEventStorage I V) : InMemoryEventStorage I V × String :=
  ({ s with nextId := s.nextId + 1 }, toString (s.nextId + 1))

/-- The two events are of one version of one aggregate. -/
def sameVersion (e event : Event I V) : Bool :=
  e.aggregateId = event.aggregateId && e.aggregateVersion = event.aggregateVersion

/-- The error a stored event of the same version makes. -/
def conflict (events : List (Event I V)) (event : Event I V) : Option (DispatchError I) :=
  match event.aggregateId, event.aggregateVersion with
  | some aggregateId, some aggregateVersion =>
    if events.any (sameVersion · event) then some (.concurrencyError aggregateVersion aggregateId)
    else none
  | _, _ => none

def commitEvents (s : InMemoryEventStorage I V) (events : List (Event I V))
    (ignoreConcurrencyError : Bool) : Except (DispatchError I) (InMemoryEventStorage I V) :=
  match if ignoreConcurrencyError then none else events.findSome? (conflict s.events) with
  | some error => .error error
  | none => .ok { s with events := s.events ++ events }

/-- The aggregate's events past the snapshot. A snapshot of version 0 is no bound. -/
def allAfterSnapshot (events : List (Event I V)) (aggregateId : I)
    (snapshot : Option (Event I V)) : List (Event I V) :=
  match snapshot.bind (·.aggregateVersion) with
  | none | some 0 => events.filter (·.aggregateId = some aggregateId)
  | some afterVersion => events.filter fun e =>
    e.aggregateId = some aggregateId && e.aggregateVersion.any (afterVersion < ·)

/-- `getAggregateEvents`. The tail is the last of the results already just when its type is
asked for. -/
def getAggregateEvents (events : List (Event I V)) (aggregateId : I)
    (options : AggregateEventsQueryParams I V := {}) : List (Event I V) :=
  let all := allAfterSnapshot events aggregateId options.snapshot
  match options.eventTypes with
  | none => all
  | some eventTypes =>
    all.filter (·.type ∈ eventTypes) ++ if options.tailLast then
      (all.getLast?.filter (·.type ∉ eventTypes)).toList else []

omit [DecidableEq I] in
def getSagaEvents (events : List (Event I V)) (sagaId : String) (beforeEvent : Event I V) :
    Except String (List (Event I V)) := do
  let beforeEventId ← assertString (beforeEvent.id.getD "") "beforeEvent.id"
  let (sagaDescriptor, originEventId) ← parseSagaId sagaId
  if beforeEvent.sagaOrigin sagaDescriptor ≠ some originEventId then
    .error "beforeEvent.sagaOrigins does not match sagaId"
  match events.findIdx? (·.id = some originEventId) with
  | none => .error ("origin event " ++ originEventId ++ " not found")
  | some originOffset =>
    match events.findIdx? (·.id = some beforeEventId) with
    | none => .error ("beforeEvent " ++ beforeEventId ++ " not found")
    | some beforeEventOffset =>
      return ((events.take beforeEventOffset).drop originOffset).filter
        (·.sagaOrigin sagaDescriptor = some originEventId)

omit [DecidableEq I] in
/-- The loop of `getEventsByTypes`, once `offsetFound` and before. -/
def eventsByTypes (eventTypes : Option (List String)) (lastEventId : Option String) :
    Bool → List (Event I V) → List (Event I V)
  | _, [] => []
  | false, event :: events => eventsByTypes eventTypes lastEventId (event.id = lastEventId) events
  | true, event :: events =>
    if eventTypes.all (event.type ∈ ·) then
      event :: eventsByTypes eventTypes lastEventId true events
    else eventsByTypes eventTypes lastEventId true events

omit [DecidableEq I] in
/-- `getEventsByTypes`, which yields what is stored when it starts. -/
def getEventsByTypes (events : List (Event I V)) (eventTypes : Option (List String))
    (afterEvent : Option (Event I V)) : Except String (List (Event I V)) := do
  let lastEventId := afterEvent.bind (·.id)
  if afterEvent.isSome then
    let _ ← assertString (lastEventId.getD "") "options.afterEvent.id"
  return eventsByTypes eventTypes lastEventId (!lastEventId.any truthy) events

omit [DecidableEq I] in
/-- The events of a batch's envelopes, each of which must have one. -/
def batchEvents : List (Envelope I V) → Except (DispatchError I) (List (Event I V))
  | [] => .ok []
  | { event := none, .. } :: _ => .error (.error "Event batch does not contain `event`")
  | { event := some event, .. } :: batch => (batchEvents batch).map (event :: ·)

/-- `process`; the first envelope says whether conflicts are ignored. -/
def process (s : InMemoryEventStorage I V) (batch : List (Envelope I V)) :
    InMemoryEventStorage I V × Except (DispatchError I) (List (Envelope I V)) :=
  let ignoreConcurrencyError := batch.head?.any (·.ignoreConcurrencyError)
  match (batchEvents batch).bind (s.commitEvents · ignoreConcurrencyError) with
  | .ok s' => (s', .ok batch)
  | .error error => (s, .error error)

end InMemoryEventStorage

end NodeCqrs
