import NodeCqrs.Event
import NodeCqrs.Lib.Machine
import NodeCqrs.Sqlite.EventStorage
import NodeCqrs.Utils.MapAssertable
import NodeCqrs.Utils.SagaId

/-!
# `SagaEventHandler`

The `handle` calls of one handler, over any event store and any execution locker. What awaits one
promise goes on in the order it began to; everything else may go on in any order. Which commands a
saga produces, and whether a saga is made and restored, handles its event and has its commands sent
without an error, is up to the environment.
-/

namespace NodeCqrs

/-- An `AbstractSaga` subclass over states `σ`, with the state its constructor makes of an id. -/
structure SagaType (I V σ : Type) where
  sagaDescriptor : String
  startsWith : Option (List String) := none
  handles : List String
  sagaFactory : String → σ
  mutate : σ → Event I V → σ

/-- What a `SagaEventHandler` is made with: a saga type and an event store with contents `D`. -/
structure SagaOptions (I V σ D : Type) extends SagaType I V σ where
  commitEvents : D → List (Event I V) → Bool → Option D
  getSagaEvents : D → String → Event I V → Except String (List (Event I V))

/-- `#createSaga` or `#restoreSaga`, for an id. -/
inductive SagaFactory (I V : Type)
  | createSaga (id : String)
  | restoreSaga (id : String) (event : Event I V)
deriving DecidableEq, Repr

/-- The promise of a saga: a factory that was called, then what came of it. -/
inductive SagaPromise (I V σ : Type)
  | pending (factory : SagaFactory I V)
  | resolved (state : σ)
  | rejected
deriving DecidableEq, Repr

/-- What a `handle` call awaits: the promise of its saga, its lock, `saga.handle`, or the sending of
a command. A call is `rejected` that has ended before its `try` block. -/
inductive SagaAwait
  | saga
  | acquire
  | handle
  | send
  | rejected
deriving DecidableEq, Repr

/-- The promise of a saga is its place among those made. The commands are those the loop has left,
from the one being sent. -/
structure SagaCall (I V : Type) where
  event : Event I V
  sagaId : String
  sagaOrigin : String
  saga : ℕ
  await : SagaAwait := .saga
  commands : List (Command I V) := []
deriving DecidableEq, Repr

/-- `delivered` has the events `handle` was called with, `waiters` the calls that await a promise and
`requests` those that have asked for the lock of a saga and not released it, each in the order they
came. -/
structure SagaEventHandler (I V σ D : Type) where
  eventStore : D
  delivered : List (Event I V) := []
  sagasCache : MapAssertable String ℕ (SagaFactory I V) := {}
  sagas : List (SagaPromise I V σ) := []
  waiters : ℕ → List ℕ := fun _ => []
  requests : String → List ℕ := fun _ => []
  calls : ℕ → Option (SagaCall I V) := fun _ => none
  sent : List (Command I V) := []

variable {I V σ D : Type}

namespace SagaType

variable (T : SagaType I V σ)

/-- The message types of `subscribe`. -/
def messageTypes : List String := T.startsWith.getD [] ++ T.handles

/-- The saga origin `handle` finds for an event, and whether the event is a starter. -/
def sagaOrigin (event : Event I V) : Except String (Bool × String) :=
  let sagaOriginFromEvent := (event.sagaOrigin T.sagaDescriptor).filter (truthy ·)
  let isStarterEvent : Bool := match T.startsWith with
    | some startsWith => event.type ∈ startsWith
    | none => sagaOriginFromEvent.isNone
  if isStarterEvent && sagaOriginFromEvent.isSome then
    .error ("Starter event \"" ++ event.type ++ "\" already contains saga origin for \""
      ++ T.sagaDescriptor ++ "\"")
  else
    match if isStarterEvent then event.id else sagaOriginFromEvent with
    | some sagaOrigin => .ok (isStarterEvent, sagaOrigin)
    | none => .error ("Event \"" ++ event.type ++ "\" does not contain saga origin for \""
        ++ T.sagaDescriptor ++ "\"")

/-- `handle` up to its cache: how the saga of an event is made, its id and the saga origin. -/
def sagaFor (event : Event I V) : Except String (SagaFactory I V × String × String) := do
  if event.type = "" then .error "event.type is required"
  let _ ← assertString (event.id.getD "") "event.id"
  let (isStarterEvent, sagaOrigin) ← T.sagaOrigin event
  let sagaId ← makeSagaId T.sagaDescriptor sagaOrigin
  return (if isStarterEvent then .createSaga sagaId else .restoreSaga sagaId event, sagaId,
    sagaOrigin)

/-- What `handle` attaches of the event to a command it sends. -/
def attachContext (event : Event I V) (sagaOrigin : String) (command : Command I V) :
    Command I V :=
  { command with
    context := command.context.orElse fun _ => event.context
    sagaOrigins := command.sagaOrigins.orElse fun _ =>
      some (setProperty (event.sagaOrigins.getD []) T.sagaDescriptor sagaOrigin) }

end SagaType

/-- What a factory's saga comes to over the contents of the store. -/
def SagaOptions.make (T : SagaOptions I V σ D) (eventStore : D) : SagaFactory I V → Except String σ
  | .createSaga id => .ok (T.sagaFactory id)
  | .restoreSaga id event =>
    (T.getSagaEvents eventStore id event).map (·.foldl T.mutate (T.sagaFactory id))

/-- A saga over `SqliteEventStorage`. -/
def SagaType.overSqlite (T : SagaType String V σ) :
    SagaOptions String V σ (SqliteEventStorage V) where
  toSagaType := T
  commitEvents eventStore events ignoreConcurrencyError :=
    (eventStore.commitEvents events ignoreConcurrencyError).toOption
  getSagaEvents := SqliteEventStorage.getSagaEvents

namespace SagaEventHandler

/-- `handled` has the commands `saga.handle` resolved with, if it did. -/
inductive Action (I V : Type)
  | commitEvents (events : List (Event I V)) (ignoreConcurrencyError : Bool)
  | handle (c : ℕ) (event : Event I V)
  | settled (saga : ℕ) (resolved : Bool)
  | awaited (saga : ℕ)
  | acquired (c : ℕ)
  | acquireRejects (c : ℕ)
  | handled (c : ℕ) (commands : Option (List (Command I V)))
  | sent (c : ℕ) (resolved : Bool)

/-- A call of a factory. -/
def call (factory : SagaFactory I V) (sagas : List (SagaPromise I V σ)) :
    List (SagaPromise I V σ) × ℕ := (sagas ++ [.pending factory], sagas.length)

def setCall (s : SagaEventHandler I V σ D) (c : ℕ) (call : SagaCall I V) :
    SagaEventHandler I V σ D := { s with calls := Function.update s.calls c (some call) }

/-- The call asks for the lock of its saga. -/
def acquire (s : SagaEventHandler I V σ D) (c : ℕ) (call : SagaCall I V) :
    SagaEventHandler I V σ D :=
  { s with requests := Function.update s.requests call.sagaId (s.requests call.sagaId ++ [c]) }.setCall
    c { call with await := .acquire }

/-- `lease.release` -/
def leave (s : SagaEventHandler I V σ D) (c : ℕ) (sagaId : String) : SagaEventHandler I V σ D :=
  { s with requests := Function.update s.requests sagaId ((s.requests sagaId).erase c) }

/-- The inner `finally`. -/
def finish (s : SagaEventHandler I V σ D) (c : ℕ) (sagaId : String) : SagaEventHandler I V σ D :=
  let s := s.leave c sagaId
  { s with sagasCache := s.sagasCache.release sagaId, calls := Function.update s.calls c none }

/-- The loop over the commands, with what is left of them. -/
def send (s : SagaEventHandler I V σ D) (c : ℕ) (call : SagaCall I V) :
    List (Command I V) → SagaEventHandler I V σ D
  | [] => s.finish c call.sagaId
  | commands => s.setCall c { call with await := .send, commands }

/-- The call goes on from what it awaits. -/
def resume (s : SagaEventHandler I V σ D) (c : ℕ) (await : SagaAwait)
    (next : SagaCall I V → Option (SagaEventHandler I V σ D)) :
    Option (SagaEventHandler I V σ D) :=
  match s.calls c with
  | some call => if call.await = await then next call else none
  | none => none

variable (T : SagaOptions I V σ D)

def step (s : SagaEventHandler I V σ D) : Action I V → Option (SagaEventHandler I V σ D)
  | .commitEvents events ignoreConcurrencyError =>
    match T.commitEvents s.eventStore events ignoreConcurrencyError with
    | some eventStore => some { s with eventStore }
    | none => some s
  | .handle c event =>
    let s := { s with delivered := s.delivered ++ [event] }
    if (s.calls c).isSome then none
    else match T.sagaFor event with
    | .error _ => some s
    | .ok (factory, sagaId, sagaOrigin) =>
      match s.sagasCache.assert call sagaId factory s.sagas with
      | (sagasCache, sagas, some saga) =>
        some <| { s with
          sagasCache, sagas
          waiters := Function.update s.waiters saga (s.waiters saga ++ [c]) }.setCall c
            { event, sagaId, sagaOrigin, saga }
      | (_, _, none) => none
  | .settled saga resolved =>
    match s.sagas[saga]? with
    | some (.pending factory) =>
      if resolved then
        match T.make s.eventStore factory with
        | .ok state => some { s with sagas := s.sagas.set saga (.resolved state) }
        | .error _ => none
      else some { s with sagas := s.sagas.set saga .rejected }
    | _ => none
  | .awaited saga =>
    match s.waiters saga, s.sagas[saga]? with
    | c :: waiters, some promise =>
      let s := { s with waiters := Function.update s.waiters saga waiters }
      match s.calls c, promise with
      | some call, .resolved _ => some (s.acquire c call)
      | some call, .rejected => some (s.setCall c { call with await := .rejected })
      | _, _ => none
    | _, _ => none
  | .acquired c => s.resume c .acquire fun call => s.setCall c { call with await := .handle }
  | .acquireRejects c => s.resume c .acquire fun call =>
    (s.leave c call.sagaId).setCall c { call with await := .rejected }
  | .handled c commands => s.resume c .handle fun call =>
    match commands, s.sagas[call.saga]? with
    | some commands, some (.resolved state) =>
      { s with
        sagas := s.sagas.set call.saga (.resolved (T.mutate state call.event)) }.send c call commands
    | some _, _ => none
    | none, _ => s.finish c call.sagaId
  | .sent c resolved => s.resume c .send fun call =>
    match call.commands with
    | [] => none
    | command :: commands =>
      let s := { s with sent := s.sent ++ [T.attachContext call.event call.sagaOrigin command] }
      if resolved then s.send c call commands else s.finish c call.sagaId

/-- The handler's machine, from a store with the contents `eventStore`. -/
def machine (eventStore : D) : Machine (SagaEventHandler I V σ D) (Action I V) :=
  ⟨(· = { eventStore }), step T⟩

end SagaEventHandler

end NodeCqrs
