import NodeCqrs.InMemory.Delivery

/-!
# `setupOneTimeEmitterSubscription`

A one-time subscription to an `InMemoryMessageBus` or to one of its queues, set up at any time. Its
listener runs when the bus calls it; the filter and the handler can call the bus, and publish on it,
before they return or throw. No filter is one that returns true, and no handler one that returns.
-/

namespace NodeCqrs

open InMemoryMessageBus (Call)

/-- What is subscribed to; a queue throws where a type has had a handler. -/
inductive Emitter
  | bus
  | queue (queueName : String)
deriving DecidableEq, Repr

namespace Emitter

def on (messageType : String) (handler : ℕ) : Emitter → Call
  | .bus => .on messageType handler
  | .queue queueName => .queueOn queueName messageType handler

def off (messageType : String) (handler : ℕ) : Emitter → Call
  | .bus => .off messageType handler
  | .queue queueName => .queueOff queueName messageType handler

end Emitter

/-- The handler that a call adds or removes. -/
def InMemoryMessageBus.Call.handler : Call → Option ℕ
  | .on _ handler | .off _ handler | .queueOn _ _ handler | .queueOff _ _ handler => some handler
  | .queue _ => none

/-- `filteredHandler` is the listener, by its number. -/
structure OneTimeSubscription where
  emitter : Emitter := .bus
  messageTypes : List String
  filteredHandler : ℕ
deriving DecidableEq, Repr

namespace OneTimeSubscription

/-- What runs in a `publish` under way: the listener with its filter or its handler, or another
handler. -/
inductive Running
  | filter
  | handler
  | other
deriving DecidableEq, Repr

structure Frame (I V : Type) where
  event : Event I V
  running : Running

inductive Settled (I V : Type)
  | pending
  | resolved (event : Event I V)
  | rejected

variable {I V : Type}

def Settled.isPending : Settled I V → Bool
  | .pending => true
  | .resolved _ | .rejected => false

/-- `frames` has one for each `publish` under way, the last one first. The filter has returned true
for the events `accepted`, and the handler was called with those `handled`. -/
structure Sys (I V : Type) where
  delivery : Delivery
  frames : List (Frame I V) := []
  handled : Bool := false
  promise : Settled I V := .pending
  accepted : List (Event I V) := []
  calledWith : List (Event I V) := []

/-- A call on the bus while its deliveries are under way. -/
def make (delivery : Delivery) (call : Call) : Delivery :=
  (delivery.step (.call call : Delivery.Action Unit Unit)).getD delivery

/-- A call for each type, up to one that throws, with the types before that. -/
def callEach (call : String → Call) (delivery : Delivery) : List String → Delivery × List String
  | [] => (delivery, [])
  | messageType :: messageTypes =>
    if (delivery.bus.change (call messageType)).isSome then
      let (delivery, done) := callEach call (make delivery (call messageType)) messageTypes
      (delivery, messageType :: done)
    else (delivery, [])

variable (o : OneTimeSubscription)

/-- The subscription is set up; `none` where it throws. -/
def setup (delivery : Delivery) (frames : List (Frame I V)) : Option (Sys I V) :=
  if o.messageTypes = [] ∨ "" ∈ o.messageTypes then none
  else
    let (delivery, done) :=
      callEach (o.emitter.on · o.filteredHandler) delivery o.messageTypes
    some { delivery, frames, promise := if done = o.messageTypes then .pending else .rejected }

/-- The bus has called the next handler of a `publish`, which has the frames below it, or there is
none. -/
def Sys.deliver (s : Sys I V) (delivery : Delivery) (event : Event I V)
    (frames : List (Frame I V)) : Sys I V :=
  let called := delivery.active.head?.bind (·.called.getLast?)
  { s with
    delivery
    frames :=
      if delivery.active.length ≤ frames.length then frames
      else ⟨event, if called = some o.filteredHandler then .filter else .other⟩ :: frames }

/-- The handler that runs returns or throws. -/
def Sys.returns (s : Sys I V) : Option (Sys I V) :=
  match s.frames with
  | [] => none
  | frame :: frames =>
    (s.delivery.step (.returns : Delivery.Action I V)).map fun delivery =>
      s.deliver o delivery frame.event frames

/-- The listener, once its filter has returned true. -/
def Sys.accept (s : Sys I V) (event : Event I V) (frames : List (Frame I V)) : Option (Sys I V) :=
  let s := { s with accepted := s.accepted ++ [event] }
  if s.handled then s.returns o
  else
    let (delivery, done) :=
      callEach (o.emitter.off · o.filteredHandler) s.delivery o.messageTypes
    let s := { s with handled := true, delivery }
    if done = o.messageTypes then
      some { s with frames := ⟨event, .handler⟩ :: frames, calledWith := s.calledWith ++ [event] }
    else s.returns o

/-- `resolve` -/
def Sys.resolve (s : Sys I V) (event : Event I V) : Sys I V :=
  { s with promise := if s.promise.isPending then .resolved event else s.promise }

inductive Action (I V : Type)
  /-- A call of what runs, which does not have the listener. -/
  | call (call : Call)
  | publish (event : Event I V)
  /-- Another handler returns or throws. -/
  | returns
  /-- What the filter returns, if it does not throw. -/
  | filter (result : Option Bool)
  | handler (throws : Bool)

def step (s : Sys I V) : Action I V → Option (Sys I V)
  | .call call =>
    if call.handler = some o.filteredHandler then none
    else some { s with delivery := make s.delivery call }
  | .publish event =>
    (s.delivery.step (.publish event)).map fun delivery => s.deliver o delivery event s.frames
  | .returns =>
    match s.frames with
    | ⟨_, .other⟩ :: _ => s.returns o
    | _ => none
  | .filter result =>
    match s.frames with
    | ⟨event, .filter⟩ :: frames =>
      if result = some true then s.accept o event frames else s.returns o
    | _ => none
  | .handler throws =>
    match s.frames with
    | ⟨event, .handler⟩ :: _ => (if throws then s else s.resolve event).returns o
    | _ => none

/-- The emitter is there and the listener is new: nothing knows it. -/
structure Fresh (delivery : Delivery) (frames : List (Frame I V)) : Prop where
  emitter : ∀ queueName, o.emitter = .queue queueName →
    queueName ∈ delivery.bus.queues.map Prod.fst
  subscribed : ∀ messageType, o.filteredHandler ∉ delivery.bus.subscribed messageType
  length : frames.length = delivery.active.length
  other : ∀ frame ∈ frames, frame.running = .other

/-- The subscription has been set up. -/
def machine (I V : Type) : Machine (Sys I V) (Action I V) where
  Init s := ∃ delivery frames, o.Fresh delivery frames ∧ o.setup delivery frames = some s
  step := o.step

end OneTimeSubscription

end NodeCqrs
