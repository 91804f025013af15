import NodeCqrs.AbstractSaga
import NodeCqrs.Aggregate

/-!
# `AbstractAggregate`

Calls of one aggregate's `handle`, and of `emit`, `emitRaw`, `takeSnapshot` and `mutate` by its
handlers or by any other code, at any time. Whether a handler throws is up to the environment.
-/

namespace NodeCqrs

instance {α : Type} [Truthy α] : Truthy (Option α) := ⟨(·.any truthy)⟩

def assertNumber (value : Option ℕ) (argName : String) : Except String Unit :=
  if value.isSome then .ok () else .error (argName ++ " must be a Number")

namespace AbstractAggregate

variable {I V σ : Type}

/-- `handle`, up to the call of the handler, with `eventsOffset`. -/
def handle (methods : String → Bool) (aggregate : Aggregate I V σ) (command : Command I V) :
    Except String (Aggregate I V σ × ℕ) := do
  assertMessage command "command"
  assertFunction (getOptionalHandler methods command.type) command.type
  match aggregate.handle command with
  | none => throw "Another command is being processed"
  | some handled => return handled

/-- `finally` -/
def handled (aggregate : Aggregate I V σ) : Aggregate I V σ := { aggregate with command := none }

/-- What `emitRaw` checks. -/
def assertRaw [Truthy I] (event : Event I V) : Except String Unit := do
  assertDefined event.aggregateId "event.aggregateId"
  assertNumber event.aggregateVersion "event.aggregateVersion"

variable [Truthy V] (T : AggregateType I V σ)

/-- `emitRaw`; one that throws in `mutate` may have left the state and the version changed. -/
def emitRaw [Truthy I] (aggregate : Aggregate I V σ) (event : Event I V) :
    Aggregate I V σ × Bool :=
  match assertRaw event with
  | .error _ => (aggregate, false)
  | .ok _ =>
    match T.mutate aggregate event with
    | (aggregate, true) => ({ aggregate with changes := aggregate.changes ++ [event] }, true)
    | (aggregate, false) => (aggregate, false)

omit [Truthy V] in
/-- The event `takeSnapshot` emits, unless it throws. -/
def snapshotEvent (aggregate : Aggregate I V σ) : Option (Event I V) :=
  (T.makeSnapshot aggregate.state).map (aggregate.makeEvent SNAPSHOT_EVENT_TYPE)

/-- A call of `handle`, while its handler runs and then. -/
inductive Call
  | handler (eventsOffset : ℕ)
  | ended
deriving DecidableEq, Repr

inductive Entry (I V : Type)
  | started (call : ℕ) (command : Command I V)
  /-- `emit` has made and registered the event. -/
  | emitted (event : Event I V)
  /-- `emitRaw` has registered an event made elsewhere. -/
  | emittedRaw (event : Event I V)
  | returned (call : ℕ) (events : List (Event I V))
  | failed (call : ℕ)

/-- The calls of `handle`, by number. -/
structure Sys (I V σ : Type) where
  aggregate : Aggregate I V σ
  calls : List Call := []
  history : List (Entry I V) := []

inductive Action (I V : Type)
  | handle (command : Command I V)
  | emit (type : String) (payload : V)
  | emitRaw (event : Event I V)
  | takeSnapshot
  | mutate (event : Event I V)
  /-- The handler in a call throws or rejects. -/
  | throws (call : ℕ)
  /-- The handler in a call fulfils. -/
  | fulfils (call : ℕ) (shouldTakeSnapshot : Bool)

/-- A method has been called that throws or else registers this, if anything. -/
def Sys.called (s : Sys I V σ) : Aggregate I V σ × Bool → Option (Entry I V) → Sys I V σ
  | (aggregate, true), entry => { s with aggregate, history := s.history ++ entry.toList }
  | (aggregate, false), _ => { s with aggregate }

/-- A call of `handle` ends. -/
def Sys.finish (s : Sys I V σ) (call : ℕ) (entry : Entry I V) : Sys I V σ where
  aggregate := handled s.aggregate
  calls := s.calls.set call .ended
  history := s.history ++ [entry]

def step [Truthy I] (methods : String → Bool) (s : Sys I V σ) :
    Action I V → Option (Sys I V σ)
  | .handle command =>
    match handle methods s.aggregate command with
    | .ok (aggregate, eventsOffset) =>
      some {
        aggregate
        calls := s.calls ++ [.handler eventsOffset]
        history := s.history ++ [.started s.calls.length command] }
    | .error _ => some { s with calls := s.calls ++ [.ended] }
  | .emit type payload =>
    some (s.called (T.emit s.aggregate type payload)
      (some (.emitted (s.aggregate.makeEvent type payload))))
  | .emitRaw event => some (s.called (emitRaw T s.aggregate event) (some (.emittedRaw event)))
  | .takeSnapshot =>
    some (s.called (T.takeSnapshot s.aggregate) ((snapshotEvent T s.aggregate).map .emitted))
  | .mutate event => some { s with aggregate := (T.mutate s.aggregate event).1 }
  | .throws call =>
    match s.calls[call]? with
    | some (.handler _) => some (s.finish call (.failed call))
    | _ => none
  | .fulfils call shouldTakeSnapshot =>
    match s.calls[call]? with
    | some (.handler eventsOffset) =>
      match T.getUncommittedEvents s.aggregate shouldTakeSnapshot eventsOffset with
      | (aggregate, none) => some ({ s with aggregate }.finish call (.failed call))
      | (aggregate, some events) =>
        let snapshot := if shouldTakeSnapshot then snapshotEvent T s.aggregate else none
        some ((s.called (aggregate, true) (snapshot.map .emitted)).finish call
          (.returned call events))
    | _ => none

/-- An aggregate with the methods has been made and restored. -/
def machine [Truthy I] (methods : String → Bool) : Machine (Sys I V σ) (Action I V) where
  Init s := truthy s.aggregate.id = true ∧ s.aggregate.changes = [] ∧ s.aggregate.command = none
    ∧ s.calls = [] ∧ s.history = []
  step := step T methods

end AbstractAggregate

end NodeCqrs
