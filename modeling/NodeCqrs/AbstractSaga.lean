import NodeCqrs.Lib.History
import NodeCqrs.Lib.Machine
import NodeCqrs.Utils.Assert
import NodeCqrs.Utils.SagaId

/-!
# `AbstractSaga`

Calls of one saga's `mutate` and `handle`, and of `enqueue` and `enqueueRaw` by its handlers and its
state's or by any other code, at any time. Whether a handler throws is up to the environment.
-/

namespace NodeCqrs

/-- `getOptionalHandler`, as the name of the method. -/
def getOptionalHandler (methods : String → Bool) (messageType : String) : Option String :=
  if methods messageType then some messageType
  else if methods ("_" ++ messageType) then some ("_" ++ messageType)
  else none

structure AbstractSaga (I V : Type) where
  version : ℕ := 0
  messages : List (Command I V) := []
  handling : Bool := false
deriving DecidableEq, Repr

namespace AbstractSaga

variable {I V : Type}

def enqueueRaw (saga : AbstractSaga I V) (command : Command I V) :
    Except String (AbstractSaga I V) := do
  assertMessage command "command"
  return { saga with messages := saga.messages ++ [command] }

def enqueue (saga : AbstractSaga I V) (commandType : String) (aggregateId : Option I)
    (payload : V) : Except String (AbstractSaga I V) := do
  let commandType ← assertString commandType "commandType"
  saga.enqueueRaw { aggregateId, type := commandType, payload }

/-- `mutate`, once the state has applied the event. -/
def mutated (saga : AbstractSaga I V) : AbstractSaga I V :=
  { saga with version := saga.version + 1 }

/-- `handle`, up to the call of the handler. -/
def handle (methods : String → Bool) (saga : AbstractSaga I V) (event : Event I V) :
    Except String (AbstractSaga I V) := do
  assertEvent event "event"
  if saga.handling then
    throw "Another event is being processed, concurrent handling is not allowed"
  assertFunction (getOptionalHandler methods event.type) (event.type ++ " handler")
  return { saga with handling := true, messages := [] }

/-- `finally` -/
def handled (saga : AbstractSaga I V) : AbstractSaga I V := { saga with handling := false }

/-- `splice(0)` -/
def splice (saga : AbstractSaga I V) : List (Command I V) × AbstractSaga I V :=
  (saga.messages, { saga with messages := [] })

/-- Who runs in a call: the saga's handler, or the state's, called by `mutate`, which other code has
called or `handle`. -/
inductive Call
  | handler
  | mutate (ofHandle : Bool)
  | ended
deriving DecidableEq, Repr

inductive Entry (I V : Type)
  | started (call : ℕ)
  | enqueued (command : Command I V)
  | mutated (call : ℕ)
  | returned (call : ℕ) (commands : List (Command I V))
  | failed (call : ℕ)

/-- The calls of `mutate` and `handle`, by number. -/
structure Sys (I V : Type) where
  saga : AbstractSaga I V := {}
  calls : List Call := []
  history : List (Entry I V) := []

inductive Action (I V : Type)
  | enqueueRaw (command : Command I V)
  | enqueue (commandType : String) (aggregateId : Option I) (payload : V)
  | mutate (event : Event I V)
  | handle (event : Event I V)
  /-- The saga's handler in a call fulfils, or else throws or rejects. -/
  | handler (call : ℕ) (throws : Bool)
  /-- The state's handler in a call returns, or throws. -/
  | applied (call : ℕ) (throws : Bool)

/-- A command is enqueued, or the call throws. -/
def Sys.enqueue (s : Sys I V) (saga : Except String (AbstractSaga I V)) (command : Command I V) :
    Sys I V :=
  match saga with
  | .ok saga => { s with saga, history := s.history ++ [.enqueued command] }
  | .error _ => s

/-- A call of `handle` fails. -/
def Sys.fail (s : Sys I V) (call : ℕ) : Sys I V :=
  { s with
    saga := s.saga.handled
    calls := s.calls.set call .ended
    history := s.history ++ [.failed call] }

def step (methods : String → Bool) (s : Sys I V) : Action I V → Option (Sys I V)
  | .enqueueRaw command => some (s.enqueue (s.saga.enqueueRaw command) command)
  | .enqueue commandType aggregateId payload =>
    some (s.enqueue (s.saga.enqueue commandType aggregateId payload)
      { aggregateId, type := commandType, payload })
  | .mutate event =>
    match assertEvent event "event" with
    | .ok _ => some { s with calls := s.calls ++ [.mutate false] }
    | .error _ => some { s with calls := s.calls ++ [.ended] }
  | .handle event =>
    match s.saga.handle methods event with
    | .ok saga =>
      some {
        saga
        calls := s.calls ++ [.handler]
        history := s.history ++ [.started s.calls.length] }
    | .error _ => some { s with calls := s.calls ++ [.ended] }
  | .handler call throws =>
    match s.calls[call]? with
    | some .handler =>
      if throws then some (s.fail call)
      else some { s with calls := s.calls.set call (.mutate true) }
    | _ => none
  | .applied call throws =>
    match s.calls[call]? with
    | some (.mutate true) =>
      if throws then some (s.fail call)
      else
        let (commands, saga) := s.saga.mutated.splice
        some {
          saga := saga.handled
          calls := s.calls.set call .ended
          history := s.history ++ [.mutated call, .returned call commands] }
    | some (.mutate false) =>
      let calls := s.calls.set call .ended
      if throws then some { s with calls }
      else some { saga := s.saga.mutated, calls, history := s.history ++ [.mutated call] }
    | _ => none

/-- A saga with the methods has been made. -/
def machine (I V : Type) (methods : String → Bool) : Machine (Sys I V) (Action I V) where
  Init s := s = {}
  step := step methods

end AbstractSaga

end NodeCqrs
