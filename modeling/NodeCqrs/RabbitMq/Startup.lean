import NodeCqrs.RabbitMq.GatewayCalls

/-!
# Start of a process with a backlog

A process that is started subscribes its handlers to one queue, one call after another, as
`RabbitMqEventBus.on` does for each event type. The broker delivers what earlier runs left in the
queue as soon as the queue has a consumer. No handler throws.
-/

namespace NodeCqrs

namespace RabbitMqGateway

/-- A message that was delivered, the subscriptions whose handlers were called, and what became of
it. -/
structure Delivery where
  msg : ConsumeMessage
  called : List EstablishedSubscription
  finalized : Finalized
deriving DecidableEq, Repr

structure Startup where
  sys : Sys := {}
  unregistered : List Subscription
  backlog : List ConsumeMessage
  deliveries : List Delivery := []
deriving DecidableEq, Repr

namespace Startup

inductive Action
  | subscribe
  | wake
  | reply (i : ℕ) (reply : Reply)
  | deliver
deriving DecidableEq, Repr

/-- What the callback of `#assertConsumer` does with a message of the queue. -/
def delivery (queue ownAppId : String) (s : Startup) (msg : ConsumeMessage) : Delivery :=
  let (called, finalized) :=
    consume s.sys.gateway.subscriptions queue ownAppId (fun _ => false) msg
  { msg, called, finalized }

def step (queue ownAppId : String) (s : Startup) : Action → Option Startup
  | .subscribe =>
    match s.unregistered with
    | [] => none
    | subscription :: unregistered =>
      (RabbitMqGateway.step s.sys (.subscribe subscription)).map fun sys =>
        { s with sys, unregistered }
  | .wake => (RabbitMqGateway.step s.sys .wake).map fun sys => { s with sys }
  | .reply i reply => (RabbitMqGateway.step s.sys (.reply i reply)).map fun sys => { s with sys }
  | .deliver =>
    match s.backlog with
    | [] => none
    | msg :: backlog =>
      -- like everything from outside, a delivery comes after the calls that are woken went on
      if s.sys.waiting.any (s.sys.lock.woken ·.2) || !s.sys.gateway.hasConsumer queue then none
      else some { s with backlog, deliveries := s.deliveries ++ [delivery queue ownAppId s msg] }

def machine (queue ownAppId : String) : Machine Startup Action :=
  ⟨fun s => s.sys = {} ∧ s.deliveries = [], step queue ownAppId⟩

end Startup

end RabbitMqGateway

end NodeCqrs
