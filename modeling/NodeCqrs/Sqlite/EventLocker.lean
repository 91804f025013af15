import NodeCqrs.Sqlite.ViewLocker

/-!
# `SqliteEventLocker`

The rows of one projection name and schema version in the event lock and view lock tables, and the
locker's queries on them. An event's row is found under `getEventId`, of type `K`.
-/

namespace NodeCqrs

/-- A row of the table `eventLockTableInit` makes. -/
structure EventLockRow where
  processingAt : ℤ
  processedAt : Option ℤ := none
deriving DecidableEq, Repr

structure SqliteEventLocker (K E : Type) where
  eventLock : K → Option EventLockRow := fun _ => none
  viewLock : Option (ViewLockRow E) := none

namespace SqliteEventLocker

variable {K E : Type} [DecidableEq K]

def setEventLock (s : SqliteEventLocker K E) (eventId : K) (r : EventLockRow) :
    SqliteEventLocker K E :=
  { s with eventLock := Function.update s.eventLock eventId (some r) }

/-- `#lockEventQuery`: an event is locked if it has no row, or one that is not processed and whose
lock is as old as the TTL. -/
def tryMarkAsProjecting (eventLockTtl now : ℤ) (s : SqliteEventLocker K E) (eventId : K) :
    SqliteEventLocker K E × Bool :=
  match s.eventLock eventId with
  | none => (s.setEventLock eventId { processingAt := now }, true)
  | some r =>
    if r.processedAt = none ∧ r.processingAt ≤ now - eventLockTtl then
      (s.setEventLock eventId { r with processingAt := now }, true)
    else (s, false)

/-- `#finalizeEventLockQuery`; where it changes no row, `markAsProjected` throws. -/
def markAsProjected (now : ℤ) (s : SqliteEventLocker K E) (eventId : K) :
    Option (SqliteEventLocker K E) :=
  match s.eventLock eventId with
  | some r =>
    if r.processedAt = none then some (s.setEventLock eventId { r with processedAt := some now })
    else none
  | none => none

omit [DecidableEq K] in
/-- `#upsertLastEventQuery` -/
def markAsLastEvent (s : SqliteEventLocker K E) (event : E) : SqliteEventLocker K E :=
  { s with viewLock := some { s.viewLock.getD {} with lastEvent := some event } }

omit [DecidableEq K] in
/-- `#getLastEventQuery` -/
def getLastEvent (s : SqliteEventLocker K E) : Option E := s.viewLock.bind (·.lastEvent)

omit [DecidableEq K] in
/-- The event has been marked as projected. -/
def Processed (s : SqliteEventLocker K E) (eventId : K) : Prop :=
  ∃ r ∈ s.eventLock eventId, r.processedAt ≠ none

omit [DecidableEq K] in
/-- The event's lock has neither been finalized nor run out. -/
def InProgress (eventLockTtl now : ℤ) (s : SqliteEventLocker K E) (eventId : K) : Prop :=
  ∃ r ∈ s.eventLock eventId, r.processedAt = none ∧ now - eventLockTtl < r.processingAt

instance (s : SqliteEventLocker K E) (eventId : K) : Decidable (s.Processed eventId) :=
  inferInstanceAs (Decidable (∃ r ∈ s.eventLock eventId, r.processedAt ≠ none))

instance (eventLockTtl now : ℤ) (s : SqliteEventLocker K E) (eventId : K) :
    Decidable (s.InProgress eventLockTtl now eventId) :=
  inferInstanceAs (Decidable (∃ r ∈ s.eventLock eventId,
    r.processedAt = none ∧ now - eventLockTtl < r.processingAt))

end SqliteEventLocker

end NodeCqrs
