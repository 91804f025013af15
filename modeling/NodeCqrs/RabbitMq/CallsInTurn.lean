import NodeCqrs.RabbitMq.Consumer
import NodeCqrs.RabbitMq.Gateway

/-!
# Calls of `RabbitMqGateway` in turn

`subscribe` and `unsubscribe` where one call is over before the next is made, and the broker does
what it is asked; `name` is what it calls an exclusive queue. A channel is the limit its consumers
get, `0` for none, and a consumer the options it was created with.
-/

namespace NodeCqrs

open RabbitMqGateway

namespace CallsInTurn

/-- A subscription with its acknowledgement mode, as it is given and as it is recorded. -/
structure Established extends EstablishedSubscription where
  noAck : Option Bool := none
deriving DecidableEq, Repr

/-- What a consumer serves its messages with. -/
structure ConsumerOptions where
  noAck : Bool
  handlerProcessTimeout : ℤ
  prefetch : ℤ
deriving DecidableEq, Repr

inductive SubscribeError
  | argument (message : String)
  | exists (s : Established)
  | deadLetterQueue
  | noConnection
  | restore (err : SubscribeError)
deriving DecidableEq, Repr

def describeSub (s : Established) : String :=
  let queue := s.queueName.orElse fun _ => s.queueGivenName
  "to" ++ (match ifTruthy queue with
    | some queue => " queue \"" ++ queue ++ "\" of"
    | none => "") ++ " exchange \"" ++ s.exchange ++ "\""

def SubscribeError.message : SubscribeError → String
  | .argument message => message
  | .exists s => "Subscription " ++ describeSub s ++ " already exists"
  | .deadLetterQueue => "deadLetterQueue requires a durable queue (queueName must be set)"
  | .noConnection => "No connection established to create channel"
  | .restore err => err.message

/-- The call is rejected for its own arguments. -/
def SubscribeError.ofArguments : SubscribeError → Bool
  | .argument _ | .exists _ | .deadLetterQueue => true
  | .noConnection | .restore _ => false

structure SubscribeResult where
  queue : String
  consumerCreated : Bool
deriving DecidableEq, Repr

structure Gateway where
  connected : Bool := false
  exclusiveQueueName : String := ""
  queueChannels : List (String × ℤ) := []
  queueConsumers : List (String × ConsumerOptions) := []
  subscriptions : List Established := []
deriving DecidableEq, Repr

namespace Gateway

def findSubscription (g : Gateway) (key : SubscriptionKey) : Option Established :=
  g.subscriptions.find? (·.key = key)

/-- What a consumer created for the subscription gets on a channel with the limit. -/
def options (s : Established) (prefetch : ℤ) : ConsumerOptions where
  noAck := s.noAck.getD false
  handlerProcessTimeout := s.handlerProcessTimeout.getD HANDLER_PROCESS_TIMEOUT
  prefetch := prefetch

/-- The limit of the queue's channel. A new channel has none. -/
def prefetch (g : Gateway) (key : String) : ℤ := (g.queueChannels.lookup key).getD 0

def setPrefetch (g : Gateway) (key : String) (limit : ℤ) : Gateway :=
  { g with queueChannels := (key, limit) :: g.queueChannels }

/-- `#assertQueueChannel` -/
def assertQueueChannel (g : Gateway) (key : String) : Except SubscribeError Gateway :=
  match g.queueChannels.lookup key with
  | some _ => .ok g
  | none => if g.connected then .ok (g.setPrefetch key 0) else .error .noConnection

/-- The queue is there and bound; its given name. -/
def assertQueue (g : Gateway) (s : Established) (name : String) : Gateway × String :=
  match ifTruthy s.queueName with
  | none =>
    if g.exclusiveQueueName = "" then ({ g with exclusiveQueueName := name }, name)
    else (g, g.exclusiveQueueName)
  | some queueName => (g, queueName)

def setQueueGivenName (g : Gateway) (s : Established) (queueGivenName : String) : Gateway :=
  { g with
    subscriptions := g.subscriptions.map fun r =>
      if r.key = s.key then { r with queueGivenName := some queueGivenName } else r }

/-- `consume` -/
def consume (g : Gateway) (s : Established) (queueGivenName : String) : Gateway :=
  { g with
    queueConsumers :=
      (queueGivenName, options s (g.prefetch (s.queueName.getD ""))) :: g.queueConsumers }

/-- `#assertConsumer` -/
def assertConsumer (g : Gateway) (s : Established) (queueGivenName : String) :
    Gateway × Except SubscribeError Bool :=
  if (g.queueConsumers.lookup queueGivenName).isSome then (g, .ok false)
  else
    match s.concurrentLimit with
    | some limit =>
      match assertNonNegativeInteger limit "options.concurrentLimit" with
      | .ok () => ((g.setPrefetch (s.queueName.getD "") limit).consume s queueGivenName, .ok true)
      | .error message => (g, .error (.argument message))
    | none => (g.consume s queueGivenName, .ok true)

/-- `#subscribe` -/
def establish (g : Gateway) (s : Established) (name : String) :
    Gateway × Except SubscribeError SubscribeResult :=
  if (g.findSubscription s.key).isSome then (g, .error (.exists s))
  else
    let g := { g with subscriptions := g.subscriptions ++ [s] }
    if s.hasDeadLetterQueue && (ifTruthy s.queueName).isNone then (g, .error .deadLetterQueue)
    else
      match g.assertQueueChannel (s.queueName.getD "") with
      | .error err => (g, .error err)
      | .ok g =>
        let (g, queue) := g.assertQueue s name
        let (g, created) := (g.setQueueGivenName s queue).assertConsumer s queue
        (g, created.map fun consumerCreated => { queue, consumerCreated })

/-- `#restoreSubscriptions`. Each turn puts back what it takes, so there are as many turns as
subscriptions. -/
def restoreSubscriptions (name : String) : ℕ → Gateway → Gateway × Except SubscribeError Unit
  | 0, g => (g, .ok ())
  | n + 1, g =>
    match g.subscriptions with
    | [] => restoreSubscriptions name n g
    | s :: rest =>
      match establish { g with subscriptions := rest } s name with
      | (g, .ok _) => restoreSubscriptions name n g
      | (g, .error err) => (g, .error err)

/-- `#connect` with a connection. -/
def connect (g : Gateway) (name : String) : Gateway × Except SubscribeError Unit :=
  restoreSubscriptions name g.subscriptions.length { g with connected := true }

def subscribe (g : Gateway) (s : Established) (name : String) :
    Gateway × Except SubscribeError SubscribeResult :=
  match s.check with
  | .error message => (g, .error (.argument message))
  | .ok () =>
    if g.connected then g.establish s name
    else
      match g.connect name with
      | (g, .error err) => (g, .error (.restore err))
      | (g, .ok ()) => g.establish s name

/-- `#tryDropConsumer` -/
def tryDropConsumer (g : Gateway) (s : Established) : Gateway :=
  match ifTruthy s.queueGivenName with
  | none => g
  | some queue =>
    if g.subscriptions.any (·.queueGivenName = some queue) then g
    else { g with queueConsumers := g.queueConsumers.filter (·.1 ≠ queue) }

/-- `unsubscribe`, which throws if there is no such subscription. -/
def unsubscribe (g : Gateway) (key : SubscriptionKey) : Option Gateway :=
  (g.findSubscription key).map fun s =>
    { g with subscriptions := g.subscriptions.eraseP (·.key = key) }.tryDropConsumer s

end Gateway

inductive Call
  | subscribe (s : Established)
  | unsubscribe (key : SubscriptionKey)
deriving DecidableEq, Repr

/-- A call that does not throw. -/
def step (name : String) (g : Gateway) : Call → Option Gateway
  | .subscribe s =>
    match g.subscribe s name with
    | (g, .ok _) => some g
    | (_, .error _) => none
  | .unsubscribe key => g.unsubscribe key

def machine (name : String) : Machine Gateway Call := ⟨(·.connected), step name⟩

end CallsInTurn

end NodeCqrs
