import NodeCqrs.InMemory.MessageBus
import NodeCqrs.Lib.LiveSet

/-!
# Deliveries of an `InMemoryMessageBus`

`publish` calls the handlers of the bus and of its queues one after another, in loops over the
`Set`s and the `Map` that the bus has. A handler can change these, and publish, before it returns.
-/

namespace NodeCqrs

/-- `Map<string, Set<IMessageHandler>>`, with the places of the `Set`s' entries. -/
abbrev LiveHandlers := List (String × LiveSet ℕ)

namespace LiveHandlers

/-- `this.handlers.get(messageType) ?? []` -/
def get (handlers : LiveHandlers) (messageType : String) : LiveSet ℕ :=
  (handlers.lookup messageType).getD .empty

/-- `on`; `none` where it throws. -/
def on (handlers : LiveHandlers) (uniqueEventHandlers : Bool) (messageType : String)
    (handler : ℕ) : Option LiveHandlers :=
  if messageType = "" then none
  else if messageType ∈ handlers.map Prod.fst then
    if uniqueEventHandlers then none
    else some (handlers.map fun entry =>
      if entry.1 = messageType then (entry.1, entry.2.add handler) else entry)
  else some (handlers ++ [(messageType, LiveSet.empty.add handler)])

/-- `off`; the key stays. -/
def off (handlers : LiveHandlers) (messageType : String) (handler : ℕ) : Option LiveHandlers :=
  if messageType = "" ∨ messageType ∉ handlers.map Prod.fst then none
  else some (handlers.map fun entry =>
    if entry.1 = messageType then (entry.1, entry.2.delete handler) else entry)

/-- Without the places. -/
def toHandlers (handlers : LiveHandlers) : MessageHandlers :=
  handlers.map fun entry => (entry.1, entry.2.toList)

end LiveHandlers

structure LiveBus where
  handlers : LiveHandlers := []
  queues : List (String × LiveHandlers) := []
deriving DecidableEq

/-- A handler that a call adds to, or removes from, the set of a type: of the bus itself, which is
the first that `publish` loops over, or of a queue. -/
inductive SetChange
  | add (messageType : String) (loop handler : ℕ)
  | delete (messageType : String) (loop handler : ℕ)
deriving DecidableEq, Repr

namespace LiveBus

open InMemoryMessageBus (Call)

/-- `queue` -/
def queue (bus : LiveBus) (queueName : String) : LiveBus :=
  if queueName ∈ bus.queues.map Prod.fst then bus
  else { bus with queues := bus.queues ++ [(queueName, [])] }

/-- The place of a queue among the queues. -/
def place (bus : LiveBus) (queueName : String) : ℕ := (bus.queues.map Prod.fst).idxOf queueName

/-- `handlers` of a queue. -/
def queueHandlers (bus : LiveBus) (queueName : String) : LiveHandlers :=
  (bus.queues[bus.place queueName]?.map Prod.snd).getD []

def updateQueue (bus : LiveBus) (queueName : String) (f : LiveHandlers → Option LiveHandlers) :
    LiveBus :=
  { bus with
    queues := bus.queues.modify (bus.place queueName) fun (name, handlers) =>
      (name, (f handlers).getD handlers) }

/-- A call; one that throws leaves all as it is, but a queue it has created. -/
def call (bus : LiveBus) : Call → LiveBus
  | .on messageType handler =>
    { bus with handlers := (bus.handlers.on false messageType handler).getD bus.handlers }
  | .off messageType handler =>
    { bus with handlers := (bus.handlers.off messageType handler).getD bus.handlers }
  | .queue queueName => bus.queue queueName
  | .queueOn queueName messageType handler =>
    (bus.queue queueName).updateQueue queueName (·.on true messageType handler)
  | .queueOff queueName messageType handler =>
    (bus.queue queueName).updateQueue queueName (·.off messageType handler)

/-- The queue that a call names exists. -/
def opened (bus : LiveBus) : Call → LiveBus
  | .on _ _ | .off _ _ => bus
  | .queue queueName | .queueOn queueName _ _ | .queueOff queueName _ _ => bus.queue queueName

/-- What a call changes, if it does not throw. -/
def change (bus : LiveBus) : Call → Option SetChange
  | .on messageType handler =>
    (bus.handlers.on false messageType handler).map fun _ => .add messageType 0 handler
  | .off messageType handler =>
    (bus.handlers.off messageType handler).map fun _ => .delete messageType 0 handler
  | .queue _ => none
  | .queueOn queueName messageType handler =>
    let bus' := bus.queue queueName
    ((bus'.queueHandlers queueName).on true messageType handler).map fun _ =>
      .add messageType (bus'.place queueName + 1) handler
  | .queueOff queueName messageType handler =>
    let bus' := bus.queue queueName
    ((bus'.queueHandlers queueName).off messageType handler).map fun _ =>
      .delete messageType (bus'.place queueName + 1) handler

/-- The sets that `publish` loops over. -/
def sets (bus : LiveBus) (messageType : String) : List (LiveSet ℕ) :=
  bus.handlers.get messageType :: bus.queues.map (·.2.get messageType)

/-- The handlers subscribed to a type, on the bus and on its queues. -/
def subscribed (bus : LiveBus) (messageType : String) : List ℕ :=
  (bus.sets messageType).flatMap LiveSet.toList

end LiveBus

/-- A `publish` under way: the place of its loops, who was subscribed when it was called, whom it
has called, who was added to a set it had not looped over to the end, and who was removed ahead of
it. -/
structure Delivering where
  type : String
  audience : List ℕ
  loop : ℕ := 0
  place : ℕ := 0
  called : List ℕ := []
  added : List ℕ := []
  removed : List ℕ := []
deriving DecidableEq, Repr

/-- The calls of `publish` under way, the last one first, and those that have returned. -/
structure Delivery where
  bus : LiveBus
  active : List Delivering := []
  finished : List Delivering := []
deriving DecidableEq

namespace Delivery

open InMemoryMessageBus (Call)

/-- What becomes of a `publish` under way with a change of the sets it loops over. -/
def note (sets : String → List (LiveSet ℕ)) (d : Delivering) : SetChange → Delivering
  | .add messageType loop handler =>
    if messageType = d.type ∧ d.loop ≤ loop
        ∧ (sets messageType)[loop]?.any (handler ∉ ·.toList) then
      { d with added := d.added ++ [handler] }
    else d
  | .delete messageType loop handler =>
    if messageType = d.type
        ∧ handler ∈ LiveSet.ahead (sets messageType) d.loop d.place loop then
      { d with removed := d.removed ++ [handler] }
    else d

/-- The next handler is called, or there is none and `publish` returns. -/
def goOn (s : Delivery) (d : Delivering) (active : List Delivering) : Delivery :=
  match LiveSet.seek (s.bus.sets d.type) d.loop d.place with
  | some (handler, loop, place) =>
    { s with active := { d with loop, place, called := d.called ++ [handler] } :: active }
  | none => { s with active, finished := s.finished ++ [d] }

inductive Action (I V : Type)
  /-- A call on the bus, by the handler that runs or by other code if none does. -/
  | call (call : Call)
  | publish (event : Event I V)
  /-- The handler that runs returns, or throws. -/
  | returns

/-- `publish` of what is no event rejects before it calls anyone. -/
def step {I V : Type} (s : Delivery) : Action I V → Option Delivery
  | .call call => some {
      s with
      bus := s.bus.call call
      active := match s.bus.change call with
        | some change => s.active.map (note (s.bus.opened call).sets · change)
        | none => s.active }
  | .publish event =>
    some (if isEvent event then
        s.goOn { type := event.type, audience := s.bus.subscribed event.type } s.active
      else s)
  | .returns =>
    match s.active with
    | [] => none
    | d :: active => some (s.goOn d active)

/-- A bus with any subscriptions and queues. -/
def machine (I V : Type) : Machine Delivery (Action I V) where
  Init s := s.active = [] ∧ s.finished = []
  step := step

end Delivery

end NodeCqrs
