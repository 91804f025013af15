import NodeCqrs.InMemory.EventStorage
import NodeCqrs.Sqlite.Guid

/-!
# `SqliteEventStorage`

The rows of its two tables in the order they were inserted, which is that of their `rowid`s. What
`JSON` keeps of an event is the event.
-/

namespace NodeCqrs

/-- `object[key] = value`, which for `__proto__` calls a setter that leaves the object as it is. -/
def assignProperty (properties : List (String × String)) (key value : String) :
    List (String × String) :=
  if key = "__proto__" then properties else setProperty properties key value

/-- A row of `tbl_events`, with the columns that are read. -/
structure EventRow (V : Type) where
  rowid : ℕ
  id : List ℕ
  aggregateId : Option (List ℕ)
  aggregateVersion : Option ℕ
  data : Event String V
deriving DecidableEq, Repr

/-- A row of `tbl_event_sagas`. -/
structure SagaRefRow where
  sagaDescriptor : String
  originId : List ℕ
  eventId : List ℕ
deriving DecidableEq, Repr

structure SqliteEventStorage (V : Type) where
  events : List (EventRow V) := []
  eventSagas : List SagaRefRow := []
deriving DecidableEq, Repr

namespace SqliteEventStorage

variable {V : Type}

/-- `#checkConcurrencyQuery` -/
def checkConcurrency (s : SqliteEventStorage V) (aggregateId : List ℕ) (aggregateVersion : ℕ) :
    Bool :=
  s.events.any fun e =>
    e.aggregateId = some aggregateId && e.aggregateVersion = some aggregateVersion

/-- `#insertEventQuery`; the id is the primary key. -/
def insertEvent (s : SqliteEventStorage V) (id : List ℕ) (event : Event String V) :
    Except (DispatchError String) (SqliteEventStorage V) :=
  if s.events.any (·.id = id) then .error (.error "UNIQUE constraint failed: tbl_events.id")
  else .ok { s with
    events := s.events ++ [{
      id
      rowid := s.events.length + 1
      aggregateId := event.aggregateId.map guid
      aggregateVersion := event.aggregateVersion
      data := { event with id := none, sagaOrigins := none } }] }

/-- `#insertSagaRefQuery`; the whole row is the primary key. -/
def insertSagaRef (s : SqliteEventStorage V) (row : SagaRefRow) :
    Except (DispatchError String) (SqliteEventStorage V) :=
  if row ∈ s.eventSagas then .error (.error ("UNIQUE constraint failed: "
    ++ "tbl_event_sagas.saga_descriptor, tbl_event_sagas.origin_id, tbl_event_sagas.event_id"))
  else .ok { s with eventSagas := s.eventSagas ++ [row] }

/-- The error a stored event of the same version makes. -/
def conflict (s : SqliteEventStorage V) (event : Event String V) :
    Option (DispatchError String) :=
  match event.aggregateId.filter (truthy ·), event.aggregateVersion with
  | some aggregateId, some aggregateVersion =>
    if s.checkConcurrency (guid aggregateId) aggregateVersion then
      some (.concurrencyError aggregateVersion aggregateId)
    else none
  | _, _ => none

/-- One round of the loop of `commitEvents`. -/
def commitEvent (ignoreConcurrencyError : Bool) (s : SqliteEventStorage V)
    (event : Event String V) : Except (DispatchError String) (SqliteEventStorage V) := do
  match if ignoreConcurrencyError then none else s.conflict event with
  | some error => .error error
  | none =>
    let id ← (assertString (event.id.getD "") "event.id").mapError DispatchError.typeError
    let s ← s.insertEvent (guid id) event
    (event.sagaOrigins.getD []).foldlM
      (fun s (descriptor, originId) => s.insertSagaRef ⟨descriptor, guid originId, guid id⟩) s

/-- The transaction leaves the tables as they were unless every event is inserted. -/
def commitEvents (s : SqliteEventStorage V) (events : List (Event String V))
    (ignoreConcurrencyError : Bool) : Except (DispatchError String) (SqliteEventStorage V) :=
  events.foldlM (commitEvent ignoreConcurrencyError) s

/-- `process`; `extractMeta` takes the first envelope apart, so there must be one. -/
def process (s : SqliteEventStorage V) (batch : List (Envelope String V)) :
    SqliteEventStorage V × Except (DispatchError String) (List (Envelope String V)) :=
  match InMemoryEventStorage.batchEvents batch, batch with
  | .error error, _ => (s, .error error)
  | .ok _, [] => (s, .error
      (.typeError "Cannot destructure property 'event' of 'envelope' as it is undefined."))
  | .ok events, envelope :: _ =>
    match s.commitEvents events envelope.ignoreConcurrencyError with
    | .ok s' => (s', .ok batch)
    | .error error => (s, .error error)

/-- A `commitEvents` call. -/
structure CommitCall (V : Type) where
  events : List (Event String V)
  ignoreConcurrencyError : Bool := false

/-- The storage after the call, rejected or not. -/
def afterCall (s : SqliteEventStorage V) (call : CommitCall V) : SqliteEventStorage V :=
  match s.commitEvents call.events call.ignoreConcurrencyError with
  | .ok s' => s'
  | .error _ => s

/-- The events of the calls that are fulfilled, each with whether its call ignores conflicts. -/
def committed (s : SqliteEventStorage V) : List (CommitCall V) → List (Event String V × Bool)
  | [] => []
  | call :: calls =>
    match s.commitEvents call.events call.ignoreConcurrencyError with
    | .ok s' => call.events.map (·, call.ignoreConcurrencyError) ++ s'.committed calls
    | .error _ => s.committed calls

/-- A row of the aggregate past the version. A version that is `NULL` is past none. -/
def isPast (aggregateId : List ℕ) (afterVersion : Option ℕ) (e : EventRow V) : Bool :=
  e.aggregateId = some aggregateId && afterVersion.all fun v => e.aggregateVersion.any (v < ·)

/-- `#getAggregateEventsQuery`, which is joined with `tail`, of one row or none. The column `type`
is that of the data. -/
def aggregateEvents (s : SqliteEventStorage V) (aggregateId : List ℕ) (afterVersion : Option ℕ)
    (eventTypes : Option (List String)) (tailLast : Bool) : List (EventRow V) :=
  match (s.events.filter (isPast aggregateId afterVersion)).getLast? with
  | none => []
  | some tail => s.events.filter fun e => isPast aggregateId afterVersion e
    && (eventTypes.all (e.data.type ∈ ·) || tailLast && e.id = tail.id)

/-- `#getRowidQuery` -/
def getRowid (s : SqliteEventStorage V) (id : List ℕ) : Option ℕ :=
  (s.events.find? (·.id = id)).map (·.rowid)

/-- `#getSagaEventsQuery`; the join has at most one row for an event. -/
def sagaEvents (s : SqliteEventStorage V) (sagaDescriptor : String) (originId : List ℕ)
    (originRowid beforeRowid : ℕ) : List (EventRow V) :=
  s.events.filter fun e => originRowid ≤ e.rowid && e.rowid < beforeRowid
    && (e.id = originId || s.eventSagas.any (· = ⟨sagaDescriptor, originId, e.id⟩))

/-- `#getSagaOriginsForEvent` -/
def getSagaOriginsForEvent (s : SqliteEventStorage V) (id : List ℕ) : List (String × String) :=
  (s.eventSagas.filter (·.eventId = id)).foldl
    (fun sagaOrigins ref =>
      assignProperty sagaOrigins ref.sagaDescriptor (bufferToGuid ref.originId)) []

/-- `#reconstructEvent` -/
def reconstructEvent (s : SqliteEventStorage V) (row : EventRow V) : Event String V :=
  let sagaOrigins := s.getSagaOriginsForEvent row.id
  { row.data with
    id := some (bufferToGuid row.id)
    sagaOrigins := if sagaOrigins = [] then none else some sagaOrigins }

def getAggregateEvents (s : SqliteEventStorage V) (aggregateId : String)
    (options : AggregateEventsQueryParams String V := {}) : List (Event String V) :=
  (s.aggregateEvents (guid aggregateId) (options.snapshot.bind (·.aggregateVersion))
    options.eventTypes options.tailLast).map s.reconstructEvent

def getSagaEvents (s : SqliteEventStorage V) (sagaId : String) (beforeEvent : Event String V) :
    Except String (List (Event String V)) := do
  let beforeEventId ← assertString (beforeEvent.id.getD "") "beforeEvent.id"
  let (sagaDescriptor, originEventId) ← parseSagaId sagaId
  if beforeEvent.sagaOrigin sagaDescriptor ≠ some originEventId then
    .error "beforeEvent.sagaOrigins does not match sagaId"
  match s.getRowid (guid originEventId) with
  | none => .error ("origin event " ++ originEventId ++ " not found")
  | some originRowid =>
    match s.getRowid (guid beforeEventId) with
    | none => .error ("beforeEvent " ++ beforeEventId ++ " not found")
    | some beforeRowid =>
      return (s.sagaEvents sagaDescriptor (guid originEventId) originRowid beforeRowid).map
        s.reconstructEvent

/-- The rows `getEventsByTypes` reads at its start and reconstructs the events of one by one. -/
def getEventsByTypes (s : SqliteEventStorage V) (eventTypes : List String)
    (afterEvent : Option (Event String V)) : Except String (List (EventRow V)) := do
  let lastEventId := afterEvent.bind (·.id)
  if afterEvent.isSome then
    let _ ← assertString (lastEventId.getD "") "options.afterEvent.id"
  match lastEventId with
  | none => return (s.events.filter (0 < ·.rowid)).filter (·.data.type ∈ eventTypes)
  | some lastEventId =>
    match s.getRowid (guid lastEventId) with
    | none => return []
    | some afterRowid =>
      return (s.events.filter (afterRowid < ·.rowid)).filter (·.data.type ∈ eventTypes)

end SqliteEventStorage

end NodeCqrs
