import NodeCqrs.RabbitMq.Consumer

/-!
# A queue and its consumers

A queue at the broker, without a TTL, that any number of processes consume over their channels, and
the callbacks of all deliveries. A channel may close at any time, when the connection is lost or the
consumer is dropped: the broker then delivers again what was not acknowledged, while the callbacks
run on and finalise nothing more, as `ack` and `nack` throw on a closed channel.
-/

namespace NodeCqrs.RabbitMqQueue

open RabbitMqConsumer (Callback Finalization)

structure Message where
  content : List UInt8
  appId : Option String := none
deriving DecidableEq, Repr

/-- A delivery, with the process it is to, the handlers of its callback that have fulfilled, and
whether its time was up or something failed. -/
structure Delivered where
  message : ℕ
  channel : ℕ
  ownAppId : String
  delivery : RabbitMqConsumer.Delivery
  callback : Callback
  fulfilled : List EstablishedSubscription := []
  failed : Bool := false

/-- The messages are numbered in the order in which they are published, and the deliveries in
theirs. -/
structure Sys where
  published : List Message := []
  ready : List ℕ := []
  /-- The deliveries the broker waits for an `ack` or a `nack` of. -/
  unacked : List ℕ := []
  /-- What is sent to a consumer with `noAck` is dequeued. -/
  sent : List ℕ := []
  /-- The messages that have been acknowledged, or rejected and thus dead-lettered. -/
  finalized : List (ℕ × Finalization) := []
  deliveries : List Delivered := []
  closed : List ℕ := []
  /-- The broker has closed a channel as it was sent an unknown delivery tag. -/
  preconditionFailed : Bool := false

inductive Action
  | publish (message : Message)
  /-- The broker delivers the first message, to a process as its gateway is set up now. -/
  | deliver (channel : ℕ) (ownAppId : String) (consumer : RabbitMqConsumer.Delivery)
  | callback (delivery : ℕ) (action : RabbitMqConsumer.Action)
  | close (channel : ℕ)

/-- The message of a delivery. -/
def Sys.messageOf (s : Sys) (k : ℕ) : Option ℕ := s.deliveries[k]?.map (·.message)

/-- A delivery was over the channel. -/
def Sys.isOver (s : Sys) (channel k : ℕ) : Bool := s.deliveries[k]?.any (·.channel = channel)

def Sys.close (s : Sys) (channel : ℕ) : Sys :=
  { s with
    closed := channel :: s.closed
    ready := (s.unacked.filter (s.isOver channel)).filterMap s.messageOf ++ s.ready
    unacked := s.unacked.filter (!s.isOver channel ·) }

/-- `channel.ack(msg)` or `channel.nack(msg, false, false)` -/
def Sys.finalize (s : Sys) (k : ℕ) (f : Finalization) : Sys :=
  match s.deliveries[k]? with
  | none => s
  | some delivered =>
    if delivered.channel ∈ s.closed then s
    else if k ∈ s.unacked then
      { s with
        unacked := s.unacked.erase k
        finalized := s.finalized ++ [(delivered.message, f)] }
    else { s.close delivered.channel with preconditionFailed := true }

/-- The handler that is called and may fulfil now. -/
def called : RabbitMqConsumer.Phase → Option EstablishedSubscription
  | .handler _ called _ => some called
  | _ => none

/-- What an action of the callback says of the delivery. -/
def Delivered.after (delivered : Delivered) (callback : Callback) :
    RabbitMqConsumer.Action → Delivered
  | .handler => { delivered with
    callback
    fulfilled := delivered.fulfilled ++ (called delivered.callback.phase).toList }
  | .appId _ => { delivered with callback }
  | .timeout | .appIdFailed _ | .handlerFailed _ => { delivered with callback, failed := true }

/-- The process has one `appId`. -/
def Delivered.answers (delivered : Delivered) : RabbitMqConsumer.Action → Bool
  | .appId appId => appId = delivered.ownAppId
  | _ => true

def step (s : Sys) : Action → Option Sys
  | .publish message =>
    some { s with
      published := s.published ++ [message]
      ready := s.ready ++ [s.published.length] }
  | .deliver channel ownAppId consumer =>
    match s.ready with
    | [] => none
    | m :: ready =>
      match s.published[m]? with
      | none => none
      | some message =>
        if channel ∈ s.closed then none
        else
          let delivery := { consumer with content := message.content, appId := message.appId }
          let callback := delivery.start
          let k := s.deliveries.length
          let deliveries :=
            s.deliveries ++ [{ message := m, channel, ownAppId, delivery, callback }]
          let s' :=
            if consumer.noAck = some true then { s with ready, deliveries, sent := s.sent ++ [m] }
            else { s with ready, deliveries, unacked := s.unacked ++ [k] }
          some (callback.issued.foldl (·.finalize k) s')
  | .callback k action =>
    match s.deliveries[k]? with
    | none => none
    | some delivered =>
      if delivered.answers action then
        match delivered.delivery.step delivered.callback action with
        | none => none
        | some callback =>
          let s' := { s with deliveries := s.deliveries.set k (delivered.after callback action) }
          some ((callback.issued.drop delivered.callback.issued.length).foldl (·.finalize k) s')
      else none
  | .close channel => some (s.close channel)

def machine : Machine Sys Action := ⟨(· = {}), step⟩

end NodeCqrs.RabbitMqQueue
