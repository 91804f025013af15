import NodeCqrs.Lib.Machine
import NodeCqrs.RabbitMq.Subscription

/-!
# The consumer callback

One delivery, from the callback that `#assertConsumer` gives to `consume` until its promise settles:
it waits for `getAppId` and for each handler, and the handler timeout may fire at any wait. What it
issues for the message, on a channel that stays open, is kept in order. A value that is thrown may
make the report of it throw.
-/

namespace NodeCqrs

namespace RabbitMqGateway

def HANDLER_PROCESS_TIMEOUT : ℕ := 60 * 60 * 1000

end RabbitMqGateway

open RabbitMqGateway

namespace RabbitMqConsumer

/-- The `type` of a message. Another value than a string is `printable` if a template literal can
convert it. -/
inductive MessageType
  | absent
  | text (type : String)
  | other (printable : Bool)
deriving DecidableEq, Repr

/-- What `#getHandlers` looks for; it has the wildcard as its default, and no subscription is for a
type that is not a string. -/
def MessageType.key : MessageType → String
  | .absent => ALL_EVENTS_WILDCARD
  | .text type => type
  | .other _ => ALL_EVENTS_WILDCARD

/-- What `JSON.parse` returns: `null`, which has no properties, or anything else. -/
inductive Content
  | null
  | message (type : MessageType)
deriving DecidableEq, Repr

/-- The name of the span does not throw. -/
def Content.printable : Content → Bool
  | .null => false
  | .message (.other printable) => printable
  | .message _ => true

/-- What `getAppId` or a handler throws. -/
structure Thrown where
  /-- `extractErrorDetails` does not throw on it. -/
  details : Bool := true
  /-- `recordSpanError` does not throw on it. -/
  recordable : Bool := true
deriving DecidableEq, Repr

/-- A message that is delivered to a consumer, with the consumer's options, the recorded
subscriptions and what the gateway has been given; `parse` is `JSON.parse`, which may throw. -/
structure Delivery where
  noAck : Option Bool := none
  handlerProcessTimeout : Option ℕ := none
  queueGivenName : String
  subscriptions : List EstablishedSubscription
  logger : Bool := false
  tracer : Bool := false
  parse : List UInt8 → Option Content
  content : List UInt8
  appId : Option String := none

inductive Finalization
  | ack
  | nack
deriving DecidableEq, Repr

/-- Where the callback waits, with the handlers it has not called yet, or how it settled. -/
inductive Phase
  | running
  | appId (handlers : List EstablishedSubscription)
  | handler (ownAppId : Option String) (called : EstablishedSubscription)
      (handlers : List EstablishedSubscription)
  | resolved
  | rejected
deriving DecidableEq, Repr

structure Callback where
  phase : Phase := .running
  /-- The timeout is pending. -/
  keepAliveTimeout : Bool
  messageFinalized : Bool := false
  issued : List Finalization := []
deriving DecidableEq, Repr

/-- `#rejectMessage`, and the flag that its callers set. -/
def Callback.rejectMessage (c : Callback) : Callback :=
  { c with issued := c.issued ++ [.nack], messageFinalized := true }

/-- `finally` -/
def Callback.settle (c : Callback) (phase : Phase) : Callback :=
  { c with keepAliveTimeout := false, phase }

/-- What is thrown is logged and recorded without an error. -/
def Delivery.reports (d : Delivery) (err : Thrown) : Bool :=
  (!d.logger || err.details) && (!d.tracer || err.recordable)

/-- `catch` -/
def Delivery.failed (d : Delivery) (c : Callback) (err : Thrown) : Callback :=
  if d.reports err then
    (if c.messageFinalized then c else c.rejectMessage).settle .resolved
  else c.settle .rejected

/-- The loop over the handlers, up to the next one that is called. -/
def Delivery.callHandlers (d : Delivery) (c : Callback) (ownAppId : Option String) :
    List EstablishedSubscription → Callback
  | [] =>
    (if c.messageFinalized then c else { c with issued := c.issued ++ [.ack] }).settle .resolved
  | s :: handlers =>
    if s.ignoreOwn && d.appId = ownAppId then d.callHandlers c ownAppId handlers
    else { c with phase := .handler ownAppId s handlers }

/-- The callback up to its first wait. -/
def Delivery.start (d : Delivery) : Callback :=
  let c : Callback :=
    { keepAliveTimeout := d.handlerProcessTimeout.getD HANDLER_PROCESS_TIMEOUT ≠ 0 }
  match d.parse d.content with
  | none => { c with phase := .rejected }
  | some content =>
    if d.tracer && !content.printable then { c with phase := .rejected }
    else
      match content with
      | .null => d.failed c {}
      | .message type =>
        let handlers := getHandlers d.subscriptions d.queueGivenName type.key
        if handlers = [] && !isSystemQueue d.queueGivenName then d.failed c {}
        else if handlers.any (·.ignoreOwn) then { c with phase := .appId handlers }
        else d.callHandlers c none handlers

inductive Action
  | timeout
  | appId (appId : String)
  | appIdFailed (err : Thrown)
  | handler
  | handlerFailed (err : Thrown)
deriving DecidableEq, Repr

def Delivery.step (d : Delivery) (c : Callback) : Action → Option Callback
  | .timeout =>
    if c.keepAliveTimeout then some { c.rejectMessage with keepAliveTimeout := false } else none
  | .appId appId =>
    match c.phase with
    | .appId handlers => some (d.callHandlers c (some appId) handlers)
    | _ => none
  | .appIdFailed err =>
    match c.phase with
    | .appId _ => some (d.failed c err)
    | _ => none
  | .handler =>
    match c.phase with
    | .handler ownAppId _ handlers => some (d.callHandlers c ownAppId handlers)
    | _ => none
  | .handlerFailed err =>
    match c.phase with
    | .handler _ _ _ => some (d.failed c err)
    | _ => none

def Delivery.machine (d : Delivery) : Machine Callback Action := ⟨(· = d.start), d.step⟩

end RabbitMqConsumer

end NodeCqrs
