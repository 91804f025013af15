import NodeCqrs.Lib.Entries
import NodeCqrs.RabbitMq.CallsInTurn

/-!
# Calls in turn are calls

`#subscribe` in one piece is `#subscribe` from one wait to the next, where each operation it awaits
is done and no other call comes in between: both leave the same records, queues and consumers, and
both throw or both return (`establish_completes`).
-/

namespace NodeCqrs

open RabbitMqGateway (Subscribing ifTruthy)

namespace CallsInTurn

/-- The operations that `#subscribe` awaits from here are all done, and so it ends. -/
inductive Completes (s : Subscription) (channel : ℕ) (name : String) :
    RabbitMqGateway × RabbitMqGateway.Outcome Subscribing → RabbitMqGateway → (returns : Bool) →
      Prop
  | returned (g : RabbitMqGateway) : Completes s channel name (g, .returned) g true
  | threw (g : RabbitMqGateway) : Completes s channel name (g, .threw) g false
  | awaits {g g' : RabbitMqGateway} {op : Subscribing} {returns : Bool} :
    Completes s channel name (g.advance s channel name op) g' returns →
    Completes s channel name (g, .awaits op) g' returns

namespace Gateway

/-- The two keep the same records. -/
structure Agrees (g : Gateway) (g' : RabbitMqGateway) : Prop where
  connection : g'.connection.isSome = g.connected
  exclusiveQueueName : g'.exclusiveQueueName = g.exclusiveQueueName
  channels : ∀ key, (g'.queueChannels.lookup key).isSome = (g.queueChannels.lookup key).isSome
  consumers : ∀ queue, g'.hasConsumer queue = (g.queueConsumers.lookup queue).isSome
  subscriptions : g'.subscriptions = g.subscriptions.map (·.toEstablishedSubscription)

variable {g : Gateway} {g' : RabbitMqGateway} {s : Established} {channel : ℕ} {name : String}

theorem Agrees.findSubscription (h : Agrees g g') (key : SubscriptionKey) :
    (g'.findSubscription key).isSome = (g.findSubscription key).isSome := by
  unfold RabbitMqGateway.findSubscription Gateway.findSubscription
  rw [h.subscriptions, List.find?_map, Option.isSome_map]
  rfl

theorem Agrees.push (h : Agrees g g') (s : Established) :
    Agrees { g with subscriptions := g.subscriptions ++ [s] }
      { g' with subscriptions := g'.subscriptions ++ [s.toEstablishedSubscription] } :=
  { h with subscriptions := by simp [h.subscriptions] }

theorem Agrees.setQueueGivenName (h : Agrees g g') (s : Established) (queue : String) :
    Agrees (g.setQueueGivenName s queue) (g'.setQueueGivenName s.toSubscription queue) := by
  refine { h with subscriptions := ?_ }
  simp only [Gateway.setQueueGivenName, RabbitMqGateway.setQueueGivenName, h.subscriptions,
    List.map_map]
  refine List.map_congr_left fun r _ => ?_
  dsimp only [Function.comp]
  split_ifs <;> rfl

theorem Agrees.setPrefetch (h : Agrees g g') {key : String}
    (hkey : (g.queueChannels.lookup key).isSome = true) (limit : ℤ) :
    Agrees (g.setPrefetch key limit) g' := by
  refine { h with channels := fun k => ?_ }
  rw [h.channels, Gateway.setPrefetch, Entries.lookup_cons_eq]
  split_ifs with hk
  · rw [hk, hkey]
    rfl
  · rfl

/-- A consumer is created. -/
theorem Agrees.consume (h : Agrees g g') (s : Established) (queue : String) (channel : ℕ) :
    Agrees (g.consume s queue)
      { g' with queueConsumers := (queue, channel) :: g'.queueConsumers } := by
  refine { h with consumers := fun q => ?_ }
  have hq := h.consumers q
  simp only [RabbitMqGateway.hasConsumer, Gateway.consume, Entries.lookup_cons_eq] at hq ⊢
  split_ifs
  · rfl
  · exact hq

/-- The one comes to what the other has come to. -/
def Ends {α : Type} (s : Established) (channel : ℕ) (name : String)
    (fine : RabbitMqGateway × RabbitMqGateway.Outcome Subscribing)
    (coarse : Gateway × Except SubscribeError α) : Prop :=
  ∃ g' returns, Completes s.toSubscription channel name fine g' returns ∧ Agrees coarse.1 g'
    ∧ returns = coarse.2.isOk

theorem Ends.awaits {α : Type} {op : Subscribing} {coarse : Gateway × Except SubscribeError α}
    (h : Ends s channel name (g'.advance s.toSubscription channel name op) coarse) :
    Ends s channel name (g', .awaits op) coarse := by
  obtain ⟨t, returns, hc, hrest⟩ := h
  exact ⟨t, returns, .awaits hc, hrest⟩

theorem ends_consume (h : Agrees g g') (queue : String) :
    Ends s channel name (g', .awaits (.consume queue))
      (g.consume s queue, (.ok true : Except SubscribeError Bool)) :=
  Ends.awaits ⟨_, _, .returned _, h.consume s queue channel, rfl⟩

/-- `#assertConsumer` -/
theorem ends_assertConsumer (h : Agrees g g')
    (hkey : (g.queueChannels.lookup (s.queueName.getD "")).isSome = true) (queue : String) :
    Ends s channel name (g', g'.assertConsumer s.toSubscription queue)
      (g.assertConsumer s queue) := by
  unfold RabbitMqGateway.assertConsumer assertConsumer
  rw [h.consumers]
  split_ifs
  · exact ⟨_, _, .returned _, h, rfl⟩
  · rcases s.concurrentLimit with _ | limit
    · exact ends_consume h queue
    · dsimp only
      rcases assertNonNegativeInteger limit "options.concurrentLimit" with message | -
      · exact ⟨_, _, .threw _, h, rfl⟩
      · exact Ends.awaits (ends_consume (h.setPrefetch hkey limit) queue)

/-- The queue is asserted and bound, and its consumer created. -/
theorem ends_assertTopology (h : Agrees g g')
    (hkey : (g.queueChannels.lookup (s.queueName.getD "")).isSome = true) :
    Ends s channel name (g', .awaits (g'.assertTopology s.toSubscription))
      (((g.assertQueue s name).1.setQueueGivenName s (g.assertQueue s name).2).assertConsumer s
        (g.assertQueue s name).2) := by
  have hbound : ∀ {g : Gateway} {g' : RabbitMqGateway}, Agrees g g' →
      (g.queueChannels.lookup (s.queueName.getD "")).isSome = true → ∀ queue,
      Ends s channel name (g'.queueBound s.toSubscription queue)
        ((g.setQueueGivenName s queue).assertConsumer s queue) :=
    fun h hkey queue => ends_assertConsumer (h.setQueueGivenName s queue) hkey queue
  unfold RabbitMqGateway.assertTopology assertQueue
  rcases hq : ifTruthy s.queueName with _ | queue
  · dsimp only
    rw [h.exclusiveQueueName]
    split_ifs with he
    · have hnew : Agrees { g with exclusiveQueueName := name }
          { g' with exclusiveQueueName := name } := { h with exclusiveQueueName := rfl }
      exact Ends.awaits (Ends.awaits (Ends.awaits (hbound hnew hkey name)))
    · refine Ends.awaits ?_
      show Ends s channel name (g'.queueBound s.toSubscription g'.exclusiveQueueName) _
      rw [h.exclusiveQueueName]
      exact hbound h hkey g.exclusiveQueueName
  · have hname : RabbitMqGateway.requestedName s.toSubscription .durable = queue := by
      simp [RabbitMqGateway.requestedName, hq]
    have hdurable : Ends s channel name (g', .awaits (.assertExchange .durable))
        ((g.setQueueGivenName s queue).assertConsumer s queue) := by
      refine Ends.awaits (Ends.awaits (Ends.awaits ?_))
      show Ends s channel name (g'.queueBound s.toSubscription
        (RabbitMqGateway.requestedName s.toSubscription .durable)) _
      rw [hname]
      exact hbound h hkey queue
    dsimp only
    split_ifs
    · exact Ends.awaits (Ends.awaits (Ends.awaits hdurable))
    · exact hdurable

theorem Ends.map {α β : Type} {fine : RabbitMqGateway × RabbitMqGateway.Outcome Subscribing}
    {coarse : Gateway × Except SubscribeError α} (h : Ends s channel name fine coarse) (f : α → β) :
    Ends s channel name fine (coarse.1, coarse.2.map f) := by
  obtain ⟨t, returns, hc, ht, hr⟩ := h
  refine ⟨t, returns, hc, ht, hr.trans ?_⟩
  cases coarse.2 <;> rfl

/-- The first channel of a queue is created. -/
theorem Agrees.createChannel (h : Agrees g g') (key : String) (channel : ℕ) :
    Agrees (g.setPrefetch key 0)
      { g' with queueChannels := (key, channel) :: g'.queueChannels } := by
  refine { h with channels := fun k => ?_ }
  rw [Gateway.setPrefetch, Entries.lookup_cons_eq, Entries.lookup_cons_eq]
  split_ifs
  · rfl
  · exact h.channels k

/-- `#subscribe` in one piece comes to what `#subscribe` comes to when all it awaits is done: it
throws at once, or at the end, or returns. -/
theorem establish_completes (h : Agrees g g') (s : Established) (name : String) :
    match g'.startSubscribe s.toEstablishedSubscription with
    | (t, none) => Agrees (g.establish s name).1 t ∧ (g.establish s name).2.isOk = false
    | (t, some (channel, op)) => Ends s channel name (t, .awaits op) (g.establish s name) := by
  unfold RabbitMqGateway.startSubscribe establish
  rw [h.findSubscription s.key]
  split_ifs with hf hd
  · exact ⟨h, rfl⟩
  · exact ⟨h.push s, rfl⟩
  · have hpush := h.push s
    have hch := h.channels (s.queueName.getD "")
    have hconn := h.connection
    dsimp only
    unfold assertQueueChannel
    dsimp only
    rcases hl : g.queueChannels.lookup (s.queueName.getD "") with _ | limit <;>
      rcases hl' : g'.queueChannels.lookup (s.queueName.getD "") with _ | channel <;>
      simp only [hl, hl', Option.isSome_none, Option.isSome_some, reduceCtorEq] at hch
    · dsimp only
      rcases hc : g'.connection with _ | connection <;> rw [hc] at hpush hconn
      · rw [if_neg (by simp [← hconn])]
        exact ⟨hpush, rfl⟩
      · have hg : g.connected = true := hconn.symm
        rw [if_pos hg]
        refine Ends.map (Ends.awaits ?_) _
        exact ends_assertTopology (hpush.createChannel _ connection)
          (by simp [Gateway.setPrefetch])
    · refine Ends.map ?_ _
      exact ends_assertTopology hpush (by simp [hl])

end Gateway

end CallsInTurn

end NodeCqrs
