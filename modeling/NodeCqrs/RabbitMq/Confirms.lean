import NodeCqrs.RabbitMq.Publish

/-!
# The promises of `publish`

The calls of `publish` up to the settling of their promises. The channel's `publish` returns whether
its write buffer has room; it queues the message in any case. Later the callback is told that the
broker has confirmed the message, or that the broker or the channel failed.
-/

namespace NodeCqrs

namespace RabbitMqConfirms

/-- What the callback of the channel's `publish` is told. -/
inductive Report
  | confirmed
  | failed
deriving DecidableEq, Repr

inductive Settled
  | pending
  | resolved
  | rejected
deriving DecidableEq, Repr

/-- A call, by what has become of its message and of its promise. -/
structure Published where
  handed : Bool := false
  report : Option Report := none
  promise : Settled := .pending
deriving DecidableEq, Repr

/-- The channel's `publish` was called and returned `published`. -/
def Published.hand (p : Published) (published : Bool) : Published :=
  { p with handed := true, promise := if published then p.promise else .rejected }

def Published.reject (p : Published) : Published := { p with promise := .rejected }

/-- The callback settles the promise, if nothing has. -/
def Published.callback (p : Published) (report : Report) : Published :=
  { p with
    report := some report
    promise := match p.promise, report with
      | .pending, .confirmed => .resolved
      | .pending, .failed => .rejected
      | promise, _ => promise }

/-- `underWay` has the numbers of the calls that have yet to come to the channel's `publish`, in the
order of `publishing`. -/
structure Sys where
  publishing : RabbitMqPublish.Sys := {}
  underWay : List ℕ := []
  published : List Published := []
deriving DecidableEq, Repr

/-- The call at a place comes to its end, or to the callback. -/
def Sys.ends (s : Sys) (i : ℕ) (f : Published → Published) : Sys :=
  match s.underWay[i]? with
  | some n => { s with underWay := s.underWay.eraseIdx i, published := s.published.modify n f }
  | none => s

/-- A call with an invalid argument rejects. -/
def Sys.publish (s : Sys) (exchange : String) : Sys :=
  if exchange = "" then { s with published := s.published ++ [Published.reject {}] }
  else
    { publishing := s.publishing.publish exchange
      underWay := s.underWay ++ [s.published.length]
      published := s.published ++ [{}] }

inductive Action
  | gateway (action : RabbitMqGateway.Action)
  | publish (exchange : String)
  /-- `published` is what the channel's `publish` returns, if the call comes to it. -/
  | done (i : ℕ) (published : Bool)
  /-- What a call awaits fails, or something throws before the message is handed over. -/
  | failed (i : ℕ)
  | callback (n : ℕ) (report : Report)
deriving DecidableEq, Repr

/-- The call at a place comes to the executor of its last promise. -/
def Sys.executes (s : Sys) (i : ℕ) : Bool := s.publishing.calls[i]?.any (·.awaits = .appId)

/-- It hands its message to the channel. -/
def Sys.hands (s : Sys) (i : ℕ) : Bool := s.executes i && s.publishing.pubChannel.isSome

def step (s : Sys) : Action → Option Sys
  | .gateway action =>
    (RabbitMqPublish.step s.publishing (.gateway action)).map fun publishing =>
      { s with publishing }
  | .publish exchange => some (s.publish exchange)
  | .done i published =>
    (RabbitMqPublish.step s.publishing (.done i)).map fun publishing =>
      let s' := { s with publishing }
      if s.hands i then s'.ends i (·.hand published)
      else if s.executes i then s'.ends i .reject
      else s'
  | .failed i =>
    (RabbitMqPublish.step s.publishing (.failed i)).map fun publishing =>
      { s with publishing }.ends i .reject
  | .callback n report =>
    (s.published[n]?).bind fun p =>
      if p.handed && p.report.isNone then
        some { s with published := s.published.set n (p.callback report) }
      else none

def machine : Machine Sys Action := ⟨(· = {}), step⟩

end RabbitMqConfirms

end NodeCqrs
