import NodeCqrs.Lib.Machine
import NodeCqrs.Utils.Lock
import NodeCqrs.RabbitMq.Subscription

/-!
# `RabbitMqGateway`

The state of one gateway, and what its methods do from one wait to the next. A connection is its
number; a channel, and a consumer, is the number of the connection it was opened on. `#subscribe`
throws on a subscription that is recorded, so what a record is found by stands for the record.
-/

namespace NodeCqrs

/-- What `#findSubscription` compares. -/
structure SubscriptionKey where
  exchange : String
  queueName : Option String
  eventType : Option String
  handler : ℕ
deriving DecidableEq, Repr

def Subscription.key (s : Subscription) : SubscriptionKey :=
  { exchange := s.exchange, queueName := s.queueName, eventType := s.eventType,
    handler := s.handler }

namespace RabbitMqGateway

inductive DesiredState
  | connected
  | disconnected
deriving DecidableEq, Repr

/-- A queue that `#subscribe` asserts and binds: the dead letter one, the durable one, a new
exclusive one; and the exclusive one that is there, only bound. -/
inductive QueueKind
  | deadLetter
  | durable
  | exclusive
  | existing
deriving DecidableEq, Repr

/-- The operation `#subscribe` awaits. -/
inductive Subscribing
  | createChannel
  | assertExchange (kind : QueueKind)
  | assertQueue (kind : QueueKind)
  | bindQueue (kind : QueueKind) (queue : String)
  | prefetch (queueGivenName : String)
  | consume (queueGivenName : String)
deriving DecidableEq, Repr

/-- Where a method is once it has run to its next wait. -/
inductive Outcome (α : Type)
  | awaits (a : α)
  | returned
  | threw
deriving DecidableEq, Repr

inductive Request
  | connect
  | subscribe (subscription : Subscription)
  | disconnect
deriving DecidableEq, Repr

/-- What a call that has the lease awaits. A restore is at the `i`-th turn of its loop. -/
inductive Await
  | connectionFactory
  | restore (i : ℕ) (subscription : Subscription) (channel : ℕ) (op : Subscribing)
  | subscribe (channel : ℕ) (op : Subscribing)
  | stopConsuming (connection : ℕ) (queues : List String)
  | close (connection : ℕ)
deriving DecidableEq, Repr

end RabbitMqGateway

open RabbitMqGateway

structure RabbitMqGateway where
  desiredState : DesiredState := .disconnected
  stateChangeLock : Lock := {}
  connection : Option ℕ := none
  exclusiveQueueName : String := ""
  queueChannels : List (String × ℕ) := []
  queueConsumers : List (String × ℕ) := []
  subscriptions : List EstablishedSubscription := []
  /-- The reconnect timer is pending. -/
  reconnectTimeout : Bool := false
deriving DecidableEq, Repr

namespace RabbitMqGateway

def cleanup (g : RabbitMqGateway) : RabbitMqGateway :=
  { g with
    connection := none
    exclusiveQueueName := ""
    queueChannels := []
    queueConsumers := [] }

def scheduleReconnect (g : RabbitMqGateway) : RabbitMqGateway :=
  if g.desiredState = .connected then { g with reconnectTimeout := true } else g

def findSubscription (g : RabbitMqGateway) (key : SubscriptionKey) :
    Option EstablishedSubscription :=
  g.subscriptions.find? (·.key = key)

def hasConsumer (g : RabbitMqGateway) (queue : String) : Bool :=
  (g.queueConsumers.lookup queue).isSome

def deleteConsumer (g : RabbitMqGateway) (queue : String) : RabbitMqGateway :=
  { g with queueConsumers := g.queueConsumers.filter (·.1 ≠ queue) }

/-- `#subscribe` from its channel to the first wait after it. -/
def assertTopology (g : RabbitMqGateway) (s : Subscription) : Subscribing :=
  match ifTruthy s.queueName with
  | none =>
    if g.exclusiveQueueName = "" then .assertExchange .exclusive
    else .bindQueue .existing g.exclusiveQueueName
  | some _ => .assertExchange (if s.hasDeadLetterQueue then .deadLetter else .durable)

/-- `#subscribe` to its first wait, with the channel, or the connection a channel is created on. -/
def startSubscribe (g : RabbitMqGateway) (s : EstablishedSubscription) :
    RabbitMqGateway × Option (ℕ × Subscribing) :=
  if (g.findSubscription s.key).isSome then (g, none)
  else
    let g := { g with subscriptions := g.subscriptions ++ [s] }
    if s.hasDeadLetterQueue && (ifTruthy s.queueName).isNone then (g, none)
    else
      match g.queueChannels.lookup (s.queueName.getD "") with
      | some channel => (g, some (channel, g.assertTopology s.toSubscription))
      | none =>
        match g.connection with
        | some connection => (g, some (connection, .createChannel))
        | none => (g, none)

def setQueueGivenName (g : RabbitMqGateway) (s : Subscription) (queueGivenName : String) :
    RabbitMqGateway :=
  { g with
    subscriptions := g.subscriptions.map fun r =>
      if r.key = s.key then { r with queueGivenName := some queueGivenName } else r }

def assertConsumer (g : RabbitMqGateway) (s : Subscription) (queueGivenName : String) :
    Outcome Subscribing :=
  if g.hasConsumer queueGivenName then .returned
  else
    match s.concurrentLimit with
    | some limit =>
      match assertNonNegativeInteger limit "options.concurrentLimit" with
      | .ok () => .awaits (.prefetch queueGivenName)
      | .error _ => .threw
    | none => .awaits (.consume queueGivenName)

/-- `#subscribe` from the queue that is bound on. -/
def queueBound (g : RabbitMqGateway) (s : Subscription) (queueGivenName : String) :
    RabbitMqGateway × Outcome Subscribing :=
  let g := g.setQueueGivenName s queueGivenName
  (g, g.assertConsumer s queueGivenName)

/-- The name `#assetQueue` is called with. -/
def requestedName (s : Subscription) : QueueKind → String
  | .deadLetter => (ifTruthy s.queueName).getD "" ++ ".failed"
  | .durable => (ifTruthy s.queueName).getD ""
  | .exclusive => ""
  | .existing => ""

/-- `#subscribe` after the operation it awaits is done. The broker names a queue that has no name. -/
def advance (g : RabbitMqGateway) (s : Subscription) (channel : ℕ) (name : String) :
    Subscribing → RabbitMqGateway × Outcome Subscribing
  | .createChannel =>
    let g := { g with queueChannels := (s.queueName.getD "", channel) :: g.queueChannels }
    (g, .awaits (g.assertTopology s))
  | .assertExchange kind => (g, .awaits (.assertQueue kind))
  | .assertQueue kind =>
    let queue := if requestedName s kind = "" then name else requestedName s kind
    (g, .awaits (.bindQueue kind queue))
  | .bindQueue .deadLetter _ => (g, .awaits (.assertExchange .durable))
  | .bindQueue .durable _ => g.queueBound s (requestedName s .durable)
  | .bindQueue .exclusive queue => { g with exclusiveQueueName := queue }.queueBound s queue
  | .bindQueue .existing _ => g.queueBound s g.exclusiveQueueName
  | .prefetch queueGivenName => (g, .awaits (.consume queueGivenName))
  | .consume queueGivenName =>
    ({ g with queueConsumers := (queueGivenName, channel) :: g.queueConsumers }, .returned)

/-- `#connect` after it threw. -/
def connectFailed (g : RabbitMqGateway) : RabbitMqGateway × Option Await :=
  (g.scheduleReconnect, none)

/-- `subscribe` once the gateway is connected; without a wait, it is over. -/
def subscribeConnected (g : RabbitMqGateway) (s : Subscription) : RabbitMqGateway × Option Await :=
  let (g, started) := g.startSubscribe { s with }
  (g, started.map fun (channel, op) => .subscribe channel op)

/-- A call from the end of `#connect` on. -/
def afterConnect (g : RabbitMqGateway) : Request → RabbitMqGateway × Option Await
  | .subscribe s => g.subscribeConnected s
  | .connect => (g, none)
  | .disconnect => (g, none)

/-- The loop of `#restoreSubscriptions` at its `i`-th turn. -/
def restore (g : RabbitMqGateway) (request : Request) (i : ℕ) : RabbitMqGateway × Option Await :=
  if i < g.subscriptions.length then
    match g.subscriptions with
    | [] => g.afterConnect request
    | s :: rest =>
      match { g with subscriptions := rest }.startSubscribe s with
      | (g, some (channel, op)) => (g, some (.restore i s.toSubscription channel op))
      | (g, none) => g.connectFailed
  else g.afterConnect request

/-- `#restoreSubscriptions` from where the `#subscribe` of its turn got to. -/
def restored (request : Request) (i : ℕ) (s : Subscription) (channel : ℕ) :
    RabbitMqGateway × Outcome Subscribing → RabbitMqGateway × Option Await
  | (g, .awaits op) => (g, some (.restore i s channel op))
  | (g, .returned) => g.restore request (i + 1)
  | (g, .threw) => g.connectFailed

/-- `subscribe` from where its `#subscribe` got to. -/
def subscribed (channel : ℕ) :
    RabbitMqGateway × Outcome Subscribing → RabbitMqGateway × Option Await
  | (g, .awaits op) => (g, some (.subscribe channel op))
  | (g, .returned) => (g, none)
  | (g, .threw) => (g, none)

/-- `#stopConsuming` with the consumers left to cancel, then `close`. -/
def stopConsuming (g : RabbitMqGateway) (connection : ℕ) (queues : List String) :
    RabbitMqGateway × Option Await :=
  if queues = [] then (g, g.connection.map .close) else (g, some (.stopConsuming connection queues))

/-- A call that got the lease. -/
def granted (g : RabbitMqGateway) : Request → RabbitMqGateway × Option Await
  | .connect => if g.connection.isSome then (g, none) else (g, some .connectionFactory)
  | .subscribe s =>
    if g.connection.isSome then g.subscribeConnected s else (g, some .connectionFactory)
  | .disconnect =>
    match g.connection with
    | none => (g, none)
    | some connection =>
      g.stopConsuming connection (g.queueConsumers.map (·.1))

def release (g : RabbitMqGateway) : RabbitMqGateway :=
  { g with stateChangeLock := g.stateChangeLock.release "" }

end RabbitMqGateway

end NodeCqrs
