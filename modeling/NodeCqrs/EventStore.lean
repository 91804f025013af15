import NodeCqrs.Utils.Assert
import NodeCqrs.Utils.SagaId
import NodeCqrs.Event

/-!
# `EventStore`

What it checks before it reads from its storage.
-/

namespace NodeCqrs

namespace EventStore

variable {I V : Type}

/-- `getSagaEvents`, over that of the storage. -/
def getSagaEvents
    (eventStorageReader : String → Event I V → Except String (List (Event I V)))
    (sagaId : String) (beforeEvent : Event I V) : Except String (List (Event I V)) := do
  assertDefined sagaId "sagaId"
  assertDefined (beforeEvent.id.getD "") "filter.beforeEvent.id"
  let (sagaDescriptor, originEventId) ← parseSagaId sagaId
  if beforeEvent.sagaOrigin sagaDescriptor ≠ some originEventId then
    .error "filter.beforeEvent.sagaOrigins does not match sagaId"
  eventStorageReader sagaId beforeEvent

end EventStore

end NodeCqrs
