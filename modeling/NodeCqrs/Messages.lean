import NodeCqrs.Aggregate
import NodeCqrs.SagaEventHandler

/-!
# The messages sagas and aggregates make

Events and commands as objects, so that what one refers to may be shared and written to: the events
saga handlers are called with, the commands these enqueue and send, and the events aggregates emit
for them, in any order. Only these steps give a message its `sagaOrigins`; one that comes from
outside has none.
-/

namespace NodeCqrs

/-- What led to a message, `K` being the saga handlers there are. -/
inductive Cause (K : Type)
  | received
  | enqueued (saga : K) (event : ℕ)
  | emitted (command : ℕ)
deriving DecidableEq, Repr

/-- `IMessage`, an event or a command. Its `sagaOrigins` are the place of an object; its cause is no
property of it. -/
structure Message (K I V : Type) where
  cause : Cause K
  id : Option String := none
  type : String
  aggregateId : Option I := none
  aggregateVersion : Option ℕ := none
  sagaOrigins : Option ℕ := none
  payload : V
  context : Option V := none
deriving DecidableEq, Repr

/-- A `handle` call that has its saga, with the places of the commands `saga.handle` has produced, or
of those the loop has left. -/
structure SagaHandling (K : Type) where
  saga : K
  event : ℕ
  sagaOrigin : String
  commands : List ℕ := []
  handled : Bool := false
deriving DecidableEq, Repr

structure Messages (K I V : Type) where
  messages : List (Message K I V) := []
  sagaOrigins : List (List (String × String)) := []
  calls : ℕ → Option (SagaHandling K) := fun _ => none

variable {K I V : Type}

/-- A command came from outside or was sent by a saga's handler. -/
def Message.sent (message : Message K I V) : Bool :=
  match message.cause with
  | .received => true
  | .enqueued .. => message.sagaOrigins.isSome
  | .emitted _ => false

namespace Messages

inductive Action (K I V : Type)
  | received (message : Message K I V)
  | identified (event : ℕ) (id : String)
  | handle (h : ℕ) (saga : K) (event : ℕ)
  | enqueue (h : ℕ) (type : String) (aggregateId : Option I) (payload : V)
  | handled (h : ℕ)
  | send (h : ℕ)
  | emit (command : ℕ) (aggregateId : I) (aggregateVersion : ℕ) (type : String) (payload : V)

def sagaOriginsOf (s : Messages K I V) (message : Message K I V) :
    Option (List (String × String)) :=
  message.sagaOrigins.bind (s.sagaOrigins[·]?)

/-- A message as an event, with the `sagaOrigins` it refers to. -/
def toEvent (s : Messages K I V) (message : Message K I V) : Event I V :=
  { id := message.id
    type := message.type
    aggregateId := message.aggregateId
    aggregateVersion := message.aggregateVersion
    sagaOrigins := s.sagaOriginsOf message
    payload := message.payload
    context := message.context }

/-- A message as a command. -/
def toCommand (s : Messages K I V) (message : Message K I V) : Command I V :=
  { type := message.type
    aggregateId := message.aggregateId
    sagaOrigins := s.sagaOriginsOf message
    payload := message.payload
    context := message.context }

/-- The event at a place. -/
def event (s : Messages K I V) (i : ℕ) : Option (Event I V) := s.messages[i]?.map s.toEvent

def setCall (s : Messages K I V) (h : ℕ) (call : SagaHandling K) : Messages K I V :=
  { s with calls := Function.update s.calls h (some call) }

/-- `enqueueRaw`, of the command `enqueue` makes. -/
def enqueue (s : Messages K I V) (h : ℕ) (call : SagaHandling K) (type : String)
    (aggregateId : Option I) (payload : V) : Messages K I V :=
  let command : Message K I V :=
    { cause := .enqueued call.saga call.event, type, aggregateId, payload }
  { s with messages := s.messages ++ [command] }.setCall h
    { call with commands := call.commands ++ [s.messages.length] }

/-- What the loop of `handle` attaches to the command at `c`. -/
def attach (s : Messages K I V) (sagaDescriptor sagaOrigin : String) (event : Message K I V)
    (c : ℕ) (command : Message K I V) : Messages K I V :=
  let command := { command with context := command.context.orElse fun _ => event.context }
  match command.sagaOrigins with
  | some _ => { s with messages := s.messages.set c command }
  | none => { s with
      messages := s.messages.set c { command with sagaOrigins := some s.sagaOrigins.length }
      sagaOrigins := s.sagaOrigins ++
        [setProperty ((s.sagaOriginsOf event).getD []) sagaDescriptor sagaOrigin] }

/-- `makeEvent`, by an aggregate that has the command at `c` in hand. -/
def makeEvent (s : Messages K I V) (c : ℕ) (command : Message K I V) (aggregateId : I)
    (aggregateVersion : ℕ) (type : String) (payload : V) : Messages K I V :=
  let event : Message K I V := {
    cause := .emitted c
    type, payload
    aggregateId := some aggregateId
    aggregateVersion := some aggregateVersion
    context := command.context }
  match s.sagaOriginsOf command with
  | some sagaOrigins => { s with
      messages := s.messages ++ [{ event with sagaOrigins := some s.sagaOrigins.length }]
      sagaOrigins := s.sagaOrigins ++ [sagaOrigins] }
  | none => { s with messages := s.messages ++ [event] }

variable {σ : K → Type} (sagas : ∀ k, SagaType I V (σ k))

def step (s : Messages K I V) : Action K I V → Option (Messages K I V)
  | .received message =>
    some { s with
      messages := s.messages ++ [{ message with cause := .received, sagaOrigins := none }] }
  | .identified event id =>
    -- `EventIdAugmentor.process`
    match s.messages[event]? with
    | some message =>
      match message.cause with
      | .enqueued .. => none
      | .received | .emitted _ =>
        if message.id.getD "" ≠ "" then some s
        else some { s with messages := s.messages.set event { message with id := some id } }
    | none => none
  | .handle h saga event =>
    match s.calls h, s.messages[event]? with
    | none, some message =>
      match (sagas saga).sagaFor (s.toEvent message) with
      | .ok (_, _, sagaOrigin) => some (s.setCall h { saga, event, sagaOrigin })
      | .error _ => some s
    | _, _ => none
  | .enqueue h type aggregateId payload =>
    match s.calls h with
    | some call =>
      if call.handled then none
      else if type = "" then some s
      else some (s.enqueue h call type aggregateId payload)
    | none => none
  | .handled h =>
    match s.calls h with
    | some call => some (s.setCall h { call with handled := true })
    | none => none
  | .send h =>
    match s.calls h with
    | some call =>
      match call.handled, call.commands, s.messages[call.event]? with
      | true, c :: commands, some event =>
        s.messages[c]?.map fun command =>
          (s.attach (sagas call.saga).sagaDescriptor call.sagaOrigin event c command).setCall h
            { call with commands }
      | _, _, _ => none
    | none => none
  | .emit c aggregateId aggregateVersion type payload =>
    match s.messages[c]? with
    | some command =>
      if !command.sent then none
      else if type = "" then some s
      else some (s.makeEvent c command aggregateId aggregateVersion type payload)
    | none => none

/-- From before there is any message. -/
def machine : Machine (Messages K I V) (Action K I V) := ⟨(· = {}), step sagas⟩

end Messages

end NodeCqrs
