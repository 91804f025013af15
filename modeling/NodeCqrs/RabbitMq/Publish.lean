import NodeCqrs.RabbitMq.GatewayCalls

/-!
# `publish`

Calls of `publish` beside the other calls of a gateway, which assert exchanges as they subscribe. A
call goes on in a step of its own from one wait to the next; where it waits for `connect`, it goes on
with the connection there is. The channel is the number of the connection it was created on, and
`#cleanup` takes it away with the connection.
-/

namespace NodeCqrs

namespace RabbitMqPublish

inductive Awaits
  | connection
  | createConfirmChannel (connection : ℕ)
  | assertExchange (connection : ℕ)
  | appId
deriving DecidableEq, Repr

structure Call where
  exchange : String
  awaits : Awaits
deriving DecidableEq, Repr

/-- What is issued on a connection. -/
inductive Issued
  | assertExchange (exchange : String) (connection : ℕ)
  | publish (exchange : String) (connection : ℕ)
deriving DecidableEq, Repr

structure Sys where
  gateway : RabbitMqGateway.Sys := {}
  pubChannel : Option ℕ := none
  calls : List Call := []
  issued : List Issued := []
deriving DecidableEq, Repr

def Sys.connection (s : Sys) : Option ℕ := s.gateway.gateway.connection

/-- The exchange `#assetQueue` asserts. -/
def assertedExchange (subscription : Subscription) : RabbitMqGateway.QueueKind → String
  | .deadLetter => subscription.exchange ++ ".failed"
  | _ => subscription.exchange

/-- The `assertExchange` that a call of the gateway awaits. -/
def assertion : RabbitMqGateway.Call → Option Issued
  | ⟨_, .restore _ subscription channel (.assertExchange kind)⟩ =>
    some (.assertExchange (assertedExchange subscription kind) channel)
  | ⟨.subscribe subscription, .subscribe channel (.assertExchange kind)⟩ =>
    some (.assertExchange (assertedExchange subscription kind) channel)
  | _ => none

def assertions (gateway : RabbitMqGateway.Sys) : List Issued := gateway.running.filterMap assertion

/-- After a step of the gateway, with what it has asserted. -/
def Sys.withGateway (s : Sys) (gateway : RabbitMqGateway.Sys) : Sys :=
  { s with
    gateway
    pubChannel := if gateway.gateway.connection.isSome then s.pubChannel else none
    issued := s.issued ++ (assertions gateway).filter (· ∉ assertions s.gateway) }

/-- `#assertConnection` to its first wait. -/
def Sys.assertConnection (s : Sys) : Sys :=
  if s.connection.isSome then s else s.withGateway (s.gateway.request .connect)

/-- `publish` to its first wait, if its arguments are valid. -/
def Sys.publish (s : Sys) (exchange : String) : Sys :=
  if exchange = "" then s
  else if s.pubChannel.isSome then { s with calls := s.calls ++ [{ exchange, awaits := .appId }] }
  else
    { s.assertConnection with calls := s.calls ++ [{ exchange, awaits := .connection }] }

def Sys.await (s : Sys) (i : ℕ) (call : Call) (awaits : Awaits) : Sys :=
  { s with calls := s.calls.set i { call with awaits } }

/-- The call is over. -/
def Sys.over (s : Sys) (i : ℕ) : Sys := { s with calls := s.calls.eraseIdx i }

def Sys.issue (s : Sys) (issued : Issued) : Sys := { s with issued := s.issued ++ [issued] }

/-- `publish` after what it awaits is done. -/
def Sys.resume (s : Sys) (i : ℕ) (call : Call) : Option Sys :=
  match call.awaits with
  | .connection => s.connection.map fun connection =>
    s.await i call (.createConfirmChannel connection)
  | .createConfirmChannel connection =>
    if s.connection = some connection then
      some <| ({ s with pubChannel := some connection }.issue
        (.assertExchange call.exchange connection)).await i call (.assertExchange connection)
    else none
  | .assertExchange connection =>
    if s.connection = some connection then some (s.await i call .appId) else none
  | .appId =>
    match s.pubChannel with
    | none => some (s.over i)
    | some connection => some ((s.issue (.publish call.exchange connection)).over i)

inductive Action
  | gateway (action : RabbitMqGateway.Action)
  | publish (exchange : String)
  | done (i : ℕ)
  | failed (i : ℕ)
deriving DecidableEq, Repr

def step (s : Sys) : Action → Option Sys
  | .gateway action => (RabbitMqGateway.step s.gateway action).map s.withGateway
  | .publish exchange => some (s.publish exchange)
  | .done i => (s.calls[i]?).bind (s.resume i)
  | .failed i => (s.calls[i]?).map fun _ => s.over i

def machine : Machine Sys Action := ⟨(· = {}), step⟩

end RabbitMqPublish

end NodeCqrs
