import Mathlib.Data.Nat.Notation
import Mathlib.Data.List.Basic

/-!
# Messages

Events and commands as `interfaces/` declares them, over any type `I` of identifiers and any type
`V` of payloads. A field the source may leave undefined is an `Option`.
-/

namespace NodeCqrs

/-- What `!!x` says of a value. -/
class Truthy (α : Type) where
  truthy : α → Bool

export Truthy (truthy)

instance : Truthy String := ⟨(· ≠ "")⟩

instance : Truthy ℕ := ⟨(· ≠ 0)⟩

/-- `IEvent` -/
structure Event (I V : Type) where
  id : Option String := none
  type : String
  aggregateId : Option I := none
  aggregateVersion : Option ℕ := none
  sagaOrigins : Option (List (String × String)) := none
  payload : V
  context : Option V := none
deriving DecidableEq, Repr

/-- `ICommand` -/
structure Command (I V : Type) where
  type : String
  aggregateId : Option I := none
  sagaOrigins : Option (List (String × String)) := none
  payload : V
  context : Option V := none
deriving DecidableEq, Repr

/-- `SNAPSHOT_EVENT_TYPE` -/
def SNAPSHOT_EVENT_TYPE : String := "snapshot"

variable {I V : Type}

/-- `isEvent` -/
def isEvent (e : Event I V) : Bool := e.type ≠ ""

/-- `isSnapshotEvent` -/
def isSnapshotEvent [Truthy V] (e : Event I V) : Bool :=
  isEvent e && (e.type = SNAPSHOT_EVENT_TYPE) && truthy e.payload

/-- `event.sagaOrigins?.[sagaDescriptor]` -/
def Event.sagaOrigin (e : Event I V) (sagaDescriptor : String) : Option String :=
  e.sagaOrigins.bind (·.lookup sagaDescriptor)

/-- The object with the property set. -/
def setProperty (properties : List (String × String)) (key value : String) :
    List (String × String) :=
  if key ∈ properties.map Prod.fst then
    properties.map fun p => if p.1 = key then (key, value) else p
  else properties ++ [(key, value)]

/-- `DispatchPipelineEnvelope`, with the fields a processor reads. -/
structure Envelope (I V : Type) where
  event : Option (Event I V)
  ignoreConcurrencyError : Bool := false
deriving DecidableEq, Repr

end NodeCqrs
