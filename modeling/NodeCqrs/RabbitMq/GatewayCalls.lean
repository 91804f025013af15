import NodeCqrs.RabbitMq.Gateway

/-!
# Calls of one `RabbitMqGateway`

Any number of calls of `connect`, `subscribe`, `disconnect` and `unsubscribe`. A call goes on in a
step of its own from one wait to the next. Those that the lock wakes go on in the order they began
to wait, before anything comes from outside: a reply, the timer, or the loss of the connection. Its
`close` event comes as the connection is lost, and what is still awaited on it can only fail.
-/

namespace NodeCqrs

namespace RabbitMqGateway

/-- A call that has the lease. -/
structure Call where
  request : Request
  awaits : Await
deriving DecidableEq, Repr

/-- The state a request is for. -/
def Request.desiredState : Request → DesiredState
  | .connect => .connected
  | .subscribe _ => .connected
  | .disconnect => .disconnected

/-- What an operation that is awaited comes to. -/
inductive Reply
  | done (name : String)
  | cancelled (queue : String) (ok : Bool)
  | failed
deriving DecidableEq, Repr

inductive Action
  | connect
  | subscribe (subscription : Subscription)
  | disconnect
  | unsubscribe (key : SubscriptionKey)
  | wake
  | reply (i : ℕ) (reply : Reply)
  | cancelled
  | timer
  | lost
deriving DecidableEq, Repr

/-- The request an action makes. An invalid `subscribe` throws before it changes anything. -/
def Action.request : Action → Option Request
  | .connect => some .connect
  | .subscribe subscription =>
    if subscription.check.isOk then some (.subscribe subscription) else none
  | .disconnect => some .disconnect
  | _ => none

structure Sys where
  gateway : RabbitMqGateway := {}
  waiting : List (Request × Acquiring) := []
  running : List Call := []
  /-- The calls of `unsubscribe` that await their `cancel`. -/
  cancelling : ℕ := 0
  nextConnection : ℕ := 0
  /-- What was bound on the connection. -/
  bound : List Binding := []
deriving DecidableEq, Repr

def Sys.lock (s : Sys) : Lock := s.gateway.stateChangeLock

/-- A call that got the lease goes on to its next wait, or is over. -/
def Sys.run (s : Sys) (request : Request) : Sys :=
  match s.gateway.granted request with
  | (gateway, some awaits) => { s with gateway, running := s.running ++ [{ request, awaits }] }
  | (gateway, none) => { s with gateway := gateway.release }

def Sys.withLock (s : Sys) (lock : Lock) : Sys :=
  { s with gateway := { s.gateway with stateChangeLock := lock } }

def Sys.wait (s : Sys) (request : Request) (awaits : Acquiring) : Sys :=
  { s with waiting := s.waiting ++ [(request, awaits)] }

/-- A call goes on from `acquire`. -/
def Sys.acquired (s : Sys) (request : Request) (lock : Lock) (awaits : Acquiring) : Sys :=
  if awaits = .acquired then (s.withLock lock).run request
  else (s.withLock lock).wait request awaits

/-- The gateway is to be in the state the request is for. -/
def Sys.desire (s : Sys) (request : Request) : Sys :=
  { s with
    gateway :=
      { s.gateway with desiredState := request.desiredState, reconnectTimeout := false } }

/-- `connect`, `subscribe` or `disconnect` to its first wait. -/
def Sys.request (s : Sys) (request : Request) : Sys :=
  (s.desire request).acquired request (s.lock.acquire "").1 (s.lock.acquire "").2

def Sys.clearReconnectTimer (s : Sys) : Sys :=
  { s with gateway := { s.gateway with reconnectTimeout := false } }

def Sys.reconnect (s : Sys) : Sys :=
  if s.gateway.desiredState ≠ .connected || s.gateway.connection.isSome then s
  else s.request .connect

def Sys.cleanup (s : Sys) : Sys := { s with gateway := s.gateway.cleanup, bound := [] }

/-- `#onConnectionClosed` of the connection. -/
def Sys.onConnectionClosed (s : Sys) : Sys :=
  if s.gateway.desiredState = .connected then s.cleanup.reconnect else s.cleanup

/-- A call that has the lease waits again, or is over. -/
def Sys.settle (s : Sys) (i : ℕ) (request : Request) :
    RabbitMqGateway × Option Await → Sys
  | (gateway, some awaits) => { s with gateway, running := s.running.set i { request, awaits } }
  | (gateway, none) => { s with gateway := gateway.release, running := s.running.eraseIdx i }

/-- `#connect` once it has a connection. -/
def Sys.connected (s : Sys) : Sys :=
  { s with
    gateway := { s.gateway with connection := some s.nextConnection }
    nextConnection := s.nextConnection + 1 }

/-- The broker binds. -/
def Sys.bind (s : Sys) (subscription : Subscription) : Subscribing → Sys
  | .bindQueue .deadLetter queue =>
    { s with
      bound := s.bound ++ [{ exchange := subscription.exchange ++ ".failed", queue, pattern := "#" }] }
  | .bindQueue _ queue => { s with bound := s.bound ++ [subscription.binding queue] }
  | _ => s

/-- Asked for a queue without a name, the broker gives it one of those it keeps to itself. -/
def Subscribing.takes (subscription : Subscription) (name : String) : Subscribing → Bool
  | .assertQueue kind => requestedName subscription kind ≠ "" || isSystemQueue name
  | _ => true

/-- The operation that a call with the lease awaits is over. On a connection that is lost it can only
have failed. -/
def Sys.reply (s : Sys) (i : ℕ) (call : Call) (reply : Reply) : Option Sys :=
  match call.awaits, reply with
  | .connectionFactory, .done _ =>
    let s := s.connected
    some (s.settle i call.request (s.gateway.restore call.request 0))
  | .connectionFactory, .failed => some (s.settle i call.request s.gateway.connectFailed)
  | .restore turn subscription channel op, .done name =>
    if s.gateway.connection = some channel && op.takes subscription name then
      some <| (s.bind subscription op).settle i call.request <|
        restored call.request turn subscription channel <|
          s.gateway.advance subscription channel name op
    else none
  | .restore .., .failed => some (s.settle i call.request s.gateway.connectFailed)
  | .subscribe channel op, .done name =>
    match call.request with
    | .subscribe subscription =>
      if s.gateway.connection = some channel && op.takes subscription name then
        some <| (s.bind subscription op).settle i call.request <|
          subscribed channel (s.gateway.advance subscription channel name op)
      else none
    | _ => none
  | .subscribe .., .failed => some (s.settle i call.request (s.gateway, none))
  | .stopConsuming connection queues, .cancelled queue ok =>
    if queue ∈ queues && (!ok || s.gateway.connection = some connection) then
      let g := if ok then s.gateway.deleteConsumer queue else s.gateway
      some (s.settle i call.request (g.stopConsuming connection (queues.erase queue)))
    else none
  | .close connection, .done _ =>
    if s.gateway.connection = some connection then
      let s := s.onConnectionClosed
      let g := if s.gateway.connection.isSome then s.gateway.cleanup else s.gateway
      some (s.settle i call.request (g, none))
    else none
  | .close _, .failed => some (s.settle i call.request (s.gateway, none))
  | _, _ => none

/-- `unsubscribe` to its wait for `cancel`, if it has a consumer to drop. -/
def Sys.unsubscribe (s : Sys) (key : SubscriptionKey) : Sys :=
  match s.gateway.findSubscription key with
  | none => s
  | some subscription =>
    let g := { s.gateway with subscriptions := s.gateway.subscriptions.filter (·.key ≠ key) }
    match ifTruthy subscription.queueGivenName with
    | none => { s with gateway := g }
    | some queue =>
      if g.subscriptions.any (·.queueGivenName = some queue) || !g.hasConsumer queue then
        { s with gateway := g }
      else
        { s with
          gateway := g.deleteConsumer queue
          cancelling := s.cancelling + 1 }

/-- The first call that is woken waits no more. -/
def Sys.resumed (s : Sys) : Sys := { s with waiting := s.waiting.eraseP (s.lock.woken ·.2) }

def Sys.wake (s : Sys) : Option Sys :=
  (s.waiting.find? (s.lock.woken ·.2)).bind fun (request, awaits) =>
    (s.lock.resume "" awaits).map fun (lock, awaits) =>
      s.resumed.acquired request lock awaits

/-- What comes from outside. -/
def Sys.event (s : Sys) : Action → Option Sys
  | .reply i reply => (s.running[i]?).bind fun call => s.reply i call reply
  | .cancelled => if s.cancelling = 0 then none else some { s with cancelling := s.cancelling - 1 }
  | .timer =>
    if s.gateway.reconnectTimeout then
      some s.clearReconnectTimer.reconnect
    else none
  | .lost => if s.gateway.connection.isSome then some s.onConnectionClosed else none
  | _ => none

def step (s : Sys) (action : Action) : Option Sys :=
  match action with
  | .connect | .subscribe _ | .disconnect => some ((action.request.map s.request).getD s)
  | .unsubscribe key => some (s.unsubscribe key)
  | .wake => s.wake
  | _ => if s.waiting.any (s.lock.woken ·.2) then none else s.event action

def machine : Machine Sys Action := ⟨(· = {}), step⟩

/-- No call is in flight. -/
def Sys.Idle (s : Sys) : Prop := s.waiting = [] ∧ s.running = [] ∧ s.cancelling = 0

end RabbitMqGateway

end NodeCqrs
