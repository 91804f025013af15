import Mathlib.Data.List.Basic

/-!
# Restoring a projection in a worker

`_restore` of `AbstractProjection`, event by event, and of `WorkerProxyProjection`, which passes the
events to the projection in the worker in batches. A call passes a copy of the batch as it is then,
and the calls run in order.
-/

namespace NodeCqrs

/-- What runs in the worker over its state `σ`, and may throw. -/
abbrev WorkerTask (ε σ α : Type) := ExceptT ε (StateM σ) α

/-- The events of `getEventsByTypes`, after which it may throw. -/
structure RestoreStream (E ε : Type) where
  events : List E
  failure : Option ε := none

structure WorkerEventLocker (E ε σ : Type) where
  getLastEvent : WorkerTask ε σ (Option E)
  tryMarkAsProjecting : E → WorkerTask ε σ Bool
  markAsProjected : E → WorkerTask ε σ Unit
  markAsLastEvent : E → WorkerTask ε σ Unit

/-- `getHandler` has the event's handler, or what it throws. -/
structure WorkerProjection (E ε σ : Type) where
  getHandler : E → Except ε (WorkerTask ε σ Unit)
  eventLocker : Option (WorkerEventLocker E ε σ) := none
  shouldRecordLastEvent : E → Bool := fun _ => true

/-- A restore, by the worker's state, the events that `_project` was called with, the last one
restored, the batch and those that were sent. -/
structure Restoring (E σ : Type) where
  state : σ
  projected : List E := []
  lastRestoredEvent : Option E := none
  batch : List E := []
  sent : List (List E) := []

variable {E ε σ : Type}

namespace WorkerProjection

variable (P : WorkerProjection E ε σ)

/-- `_project` -/
def project (event : E) : WorkerTask ε σ Unit := do
  let handler ← liftExcept (P.getHandler event)
  match P.eventLocker with
  | none => handler
  | some eventLocker =>
    if ← eventLocker.tryMarkAsProjecting event then
      handler
      eventLocker.markAsProjected event
      if P.shouldRecordLastEvent event then eventLocker.markAsLastEvent event

/-- `getLastProjectedEvent` -/
def getLastProjectedEvent : WorkerTask ε σ (Option E) :=
  match P.eventLocker with
  | none => pure none
  | some eventLocker => eventLocker.getLastEvent

/-- `_project` of an event, with what it throws. -/
def projects (restoring : Restoring E σ) (event : E) : Restoring E σ × Except ε Unit :=
  let (result, state) := (P.project event).run restoring.state
  ({ restoring with state, projected := restoring.projected ++ [event] }, result)

end WorkerProjection

namespace AbstractProjection

variable (P : WorkerProjection E ε σ)

/-- The loop of `_restore`; `_onRestoringError` throws. -/
def restoreEvents (restoring : Restoring E σ) : List E → Restoring E σ × Except ε Unit
  | [] => (restoring, .ok ())
  | event :: events =>
    match P.projects restoring event with
    | (restoring, .ok ()) => restoreEvents { restoring with lastRestoredEvent := some event } events
    | (restoring, .error error) => (restoring, .error error)

/-- The loop, over what the stream has. -/
def restoreStream (restoring : Restoring E σ) (stream : RestoreStream E ε) :
    Restoring E σ × Except ε Unit :=
  match restoreEvents P restoring stream.events, stream.failure with
  | (restoring, .ok ()), some error => (restoring, .error error)
  | result, _ => result

/-- `_restore` to the end of its loop. -/
def restoreLoop (getEventsByTypes : Option E → RestoreStream E ε) (state : σ) :
    Restoring E σ × Except ε Unit :=
  match P.getLastProjectedEvent.run state with
  | (.error error, state) => ({ state }, .error error)
  | (.ok lastEvent, state) => restoreStream P { state } (getEventsByTypes lastEvent)

/-- `_restore` -/
def restore (getEventsByTypes : Option E → RestoreStream E ε) (state : σ) :
    Restoring E σ × Except ε Unit :=
  match restoreLoop P getEventsByTypes state with
  | (restoring, .error error) => (restoring, .error error)
  | (restoring, .ok ()) =>
    match P.eventLocker, restoring.lastRestoredEvent with
    | some eventLocker, some event =>
      let (result, state) := (eventLocker.markAsLastEvent event).run restoring.state
      ({ restoring with state }, result)
    | _, _ => (restoring, .ok ())

end AbstractProjection

/-- `AbstractWorkerProjection._projectBatch` -/
def AbstractWorkerProjection.projectBatch (P : WorkerProjection E ε σ) (restoring : Restoring E σ) :
    List E → Restoring E σ × Except ε Unit
  | [] => (restoring, .ok ())
  | event :: events =>
    match P.projects restoring event with
    | (restoring, .ok ()) => projectBatch P restoring events
    | (restoring, .error error) => (restoring, .error error)

namespace WorkerProxyProjection

variable (P : WorkerProjection E ε σ) (RESTORE_BATCH_SIZE : ℕ)

/-- `_projectBatch`, a call of the worker with a copy of the batch. -/
def projectBatch (restoring : Restoring E σ) : Restoring E σ × Except ε Unit :=
  AbstractWorkerProjection.projectBatch P
    { restoring with sent := restoring.sent ++ [restoring.batch] } restoring.batch

/-- The loop of `_restore`. -/
def restoreEvents (restoring : Restoring E σ) : List E → Restoring E σ × Except ε Unit
  | [] => (restoring, .ok ())
  | event :: events =>
    let restoring := { restoring with batch := restoring.batch ++ [event] }
    if RESTORE_BATCH_SIZE ≤ restoring.batch.length then
      match projectBatch P restoring with
      | (restoring, .ok ()) => restoreEvents { restoring with batch := [] } events
      | (restoring, .error error) => (restoring, .error error)
    else restoreEvents restoring events

/-- The loop, over what the stream has, and the last batch. -/
def restoreStream (restoring : Restoring E σ) (stream : RestoreStream E ε) :
    Restoring E σ × Except ε Unit :=
  match restoreEvents P RESTORE_BATCH_SIZE restoring stream.events, stream.failure with
  | (restoring, .error error), _ => (restoring, .error error)
  | (restoring, .ok ()), some error => (restoring, .error error)
  | (restoring, .ok ()), none =>
    if restoring.batch.length ≠ 0 then projectBatch P restoring else (restoring, .ok ())

/-- `_restore` -/
def restore (getEventsByTypes : Option E → RestoreStream E ε) (state : σ) :
    Restoring E σ × Except ε Unit :=
  match P.getLastProjectedEvent.run state with
  | (.error error, state) => ({ state }, .error error)
  | (.ok lastEvent, state) =>
    restoreStream P RESTORE_BATCH_SIZE { state } (getEventsByTypes lastEvent)

end WorkerProxyProjection

end NodeCqrs
