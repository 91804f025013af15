import Mathlib.Data.Int.Notation
import NodeCqrs.Lib.Topics
import NodeCqrs.Utils.Assert

/-!
# Subscriptions of `RabbitMqGateway`

What a subscription binds at the broker, and what the gateway does with a message that is delivered.
A handler is its number. A missing string and the empty one are both falsy.
-/

namespace NodeCqrs

structure Subscription where
  exchange : String
  queueName : Option String := none
  eventType : Option String := none
  handler : ℕ
  ignoreOwn : Bool := false
  concurrentLimit : Option ℤ := none
  handlerProcessTimeout : Option ℤ := none
  queueExpires : Option ℤ := none
  deadLetterQueue : Option Bool := none
  messageTtl : Option ℤ := none
deriving DecidableEq, Repr

structure EstablishedSubscription extends Subscription where
  queueGivenName : Option String := none
deriving DecidableEq, Repr

/-- A binding at the broker: what is published to the exchange with a matching key goes to the
queue. -/
structure Binding where
  exchange : String
  queue : String
  pattern : String
deriving DecidableEq, Repr

/-- A message as it is delivered, with the exchange it was published to. -/
structure ConsumeMessage where
  exchange : String
  type : String
  appId : Option String := none
deriving DecidableEq, Repr

namespace RabbitMqGateway

def ALL_EVENTS_WILDCARD : String := "*"

def isSystemQueue (queueName : String) : Bool := "amq.".toList.isPrefixOf queueName.toList

/-- A string that is not falsy. -/
def ifTruthy (s : Option String) : Option String := s.filter (· ≠ "")

end RabbitMqGateway

open RabbitMqGateway

/-- The checks of `subscribe`. -/
def Subscription.check (s : Subscription) : Except String Unit := do
  if let some handlerProcessTimeout := s.handlerProcessTimeout then
    assertNonNegativeInteger handlerProcessTimeout "subscription.handlerProcessTimeout"
  if let some queueExpires := s.queueExpires then
    assertNonNegativeInteger queueExpires "subscription.queueExpires"
  if let some messageTtl := s.messageTtl then
    assertNonNegativeInteger messageTtl "subscription.messageTtl"
  if (ifTruthy s.queueName).isNone then
    assertNotDefined s.queueExpires "subscription.queueExpires"

/-- The pattern `#assertBinding` binds with. -/
def Subscription.pattern (s : Subscription) : String :=
  match ifTruthy s.eventType with
  | none => "#"
  | some eventType => if eventType = ALL_EVENTS_WILDCARD then "#" else eventType

/-- Default of the option: a durable queue has a dead letter queue. -/
def Subscription.hasDeadLetterQueue (s : Subscription) : Bool :=
  s.deadLetterQueue.getD (ifTruthy s.queueName).isSome

def Subscription.deadLetterBinding (s : Subscription) (queueGivenName : String) : Binding :=
  { exchange := s.exchange ++ ".failed", queue := queueGivenName ++ ".failed", pattern := "#" }

def Subscription.binding (s : Subscription) (queueGivenName : String) : Binding :=
  { exchange := s.exchange, queue := queueGivenName, pattern := s.pattern }

/-- The bindings `#subscribe` asserts for a queue of the subscription. -/
def Subscription.bindings (s : Subscription) (queueGivenName : String) : List Binding :=
  (if s.hasDeadLetterQueue then [s.deadLetterBinding queueGivenName] else [])
    ++ [s.binding queueGivenName]

namespace Broker

/-- The words of a routing key or of a pattern. -/
def words (key : String) : List (List Char) :=
  if key = "" then [] else key.toList.splitOn '.'

def part (word : List Char) : Topics.Part (List Char) :=
  if word = ['*'] then .one else if word = ['#'] then .many else .word word

/-- A topic exchange routes along the binding. -/
def Routes (b : Binding) (msg : ConsumeMessage) : Prop :=
  b.exchange = msg.exchange ∧ Topics.Matches ((words b.pattern).map part) (words msg.type)

instance (b : Binding) (msg : ConsumeMessage) : Decidable (Routes b msg) :=
  inferInstanceAs (Decidable (_ ∧ _))

end Broker

/-- The type is one the subscription is for, in `#getHandlers`. -/
def Subscription.handles (s : Subscription) (eventType : String) : Bool :=
  match ifTruthy s.eventType with
  | none => true
  | some t => t = ALL_EVENTS_WILDCARD || t = eventType

def Subscription.ignores (s : Subscription) (ownAppId : String) (msg : ConsumeMessage) : Bool :=
  s.ignoreOwn && msg.appId = some ownAppId

namespace RabbitMqGateway

def getHandlers (subscriptions : List EstablishedSubscription) (queueGivenName eventType : String) :
    List EstablishedSubscription :=
  subscriptions.filter fun s => s.queueGivenName = some queueGivenName && s.handles eventType

inductive ConsumeError
  | unhandled (queueGivenName type : String)
  | handler (s : EstablishedSubscription)
deriving DecidableEq, Repr

def ConsumeError.message : ConsumeError → Option String
  | .unhandled queueGivenName type =>
    some ("Message from queue \"" ++ queueGivenName ++
      "\" was delivered to a consumer that does not handle type \"" ++ type ++ "\"")
  | .handler _ => none

inductive Finalized
  | acked
  | rejected (err : ConsumeError)
deriving DecidableEq, Repr

/-- The loop over the handlers, with the subscriptions whose handlers it calls. The first that
throws ends it. -/
def callHandlers (ownAppId : String) (throws : EstablishedSubscription → Bool)
    (msg : ConsumeMessage) :
    List EstablishedSubscription → List EstablishedSubscription × Finalized
  | [] => ([], .acked)
  | s :: handlers =>
    if s.ignores ownAppId msg then callHandlers ownAppId throws msg handlers
    else if throws s then ([s], .rejected (.handler s))
    else
      let (called, finalized) := callHandlers ownAppId throws msg handlers
      (s :: called, finalized)

/-- The callback of `#assertConsumer`. -/
def consume (subscriptions : List EstablishedSubscription) (queueGivenName ownAppId : String)
    (throws : EstablishedSubscription → Bool) (msg : ConsumeMessage) :
    List EstablishedSubscription × Finalized :=
  let handlers := getHandlers subscriptions queueGivenName msg.type
  if handlers = [] && !isSystemQueue queueGivenName then
    ([], .rejected (.unhandled queueGivenName msg.type))
  else callHandlers ownAppId throws msg handlers

end RabbitMqGateway

end NodeCqrs
