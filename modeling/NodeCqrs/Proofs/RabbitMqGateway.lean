import NodeCqrs.Proofs.Lock
import NodeCqrs.RabbitMq.GatewayCalls

/-!
# What the methods of `RabbitMqGateway` leave as it is

No method that has the lease changes the lock, the desired state or the connection on its way to its
next wait, and none clears the reconnect timer (`Keeps`). What a reply leads to is said case by case
(`Settles`). One call has the lease at a time (`Leased`).
-/

namespace NodeCqrs

namespace RabbitMqGateway

structure Keeps (g g' : RabbitMqGateway) : Prop where
  desiredState : g'.desiredState = g.desiredState
  stateChangeLock : g'.stateChangeLock = g.stateChangeLock
  connection : g'.connection = g.connection
  reconnectTimeout : g.reconnectTimeout = true → g'.reconnectTimeout = true

theorem Keeps.refl (g : RabbitMqGateway) : Keeps g g := ⟨rfl, rfl, rfl, id⟩

theorem Keeps.comp {g₁ g₂ g₃ : RabbitMqGateway} (h : Keeps g₁ g₂) (h' : Keeps g₂ g₃) :
    Keeps g₁ g₃ :=
  ⟨h'.desiredState.trans h.desiredState, h'.stateChangeLock.trans h.stateChangeLock,
    h'.connection.trans h.connection, fun ht => h'.reconnectTimeout (h.reconnectTimeout ht)⟩

theorem scheduleReconnect_keeps (g : RabbitMqGateway) : Keeps g g.scheduleReconnect := by
  unfold scheduleReconnect
  split_ifs
  · exact ⟨rfl, rfl, rfl, fun _ => rfl⟩
  · exact .refl g

theorem startSubscribe_keeps (g : RabbitMqGateway) (s : EstablishedSubscription) :
    Keeps g (g.startSubscribe s).1 := by
  unfold startSubscribe
  split_ifs
  · exact .refl g
  · exact ⟨rfl, rfl, rfl, id⟩
  · dsimp only
    split
    · exact ⟨rfl, rfl, rfl, id⟩
    · split <;> exact ⟨rfl, rfl, rfl, id⟩

theorem advance_keeps (g : RabbitMqGateway) (s : Subscription) (channel : ℕ) (name : String)
    (op : Subscribing) : Keeps g (g.advance s channel name op).1 := by
  unfold advance
  split <;> exact ⟨rfl, rfl, rfl, id⟩

theorem subscribeConnected_keeps (g : RabbitMqGateway) (s : Subscription) :
    Keeps g (g.subscribeConnected s).1 :=
  startSubscribe_keeps g _

theorem afterConnect_keeps (g : RabbitMqGateway) (request : Request) :
    Keeps g (g.afterConnect request).1 := by
  cases request with
  | connect => exact .refl g
  | subscribe s => exact subscribeConnected_keeps g s
  | disconnect => exact .refl g

theorem restore_keeps (g : RabbitMqGateway) (request : Request) (i : ℕ) :
    Keeps g (g.restore request i).1 := by
  unfold restore
  split_ifs
  · split
    · exact afterConnect_keeps g request
    · rename_i s rest _
      have h0 : Keeps g { g with subscriptions := rest } := ⟨rfl, rfl, rfl, id⟩
      have hs := h0.comp (startSubscribe_keeps _ s)
      split
      · rename_i h
        rwa [h] at hs
      · rename_i h
        rw [h] at hs
        exact hs.comp (scheduleReconnect_keeps _)
  · exact afterConnect_keeps g request

theorem restored_keeps (request : Request) (i : ℕ) (s : Subscription) (channel : ℕ)
    (x : RabbitMqGateway × Outcome Subscribing) :
    Keeps x.1 (restored request i s channel x).1 := by
  obtain ⟨g, outcome⟩ := x
  cases outcome with
  | awaits op => exact .refl g
  | returned => exact restore_keeps g request (i + 1)
  | threw => exact scheduleReconnect_keeps g

theorem subscribed_fst (channel : ℕ) (x : RabbitMqGateway × Outcome Subscribing) :
    (subscribed channel x).1 = x.1 := by
  obtain ⟨g, outcome⟩ := x
  cases outcome <;> rfl

theorem stopConsuming_fst (g : RabbitMqGateway) (connection : ℕ) (queues : List String) :
    (g.stopConsuming connection queues).1 = g := by
  unfold stopConsuming
  split_ifs <;> rfl

theorem granted_keeps (g : RabbitMqGateway) (request : Request) :
    Keeps g (g.granted request).1 := by
  unfold granted
  split
  · split_ifs <;> exact .refl g
  · split_ifs
    · exact subscribeConnected_keeps g _
    · exact .refl g
  · split
    · exact .refl g
    · rw [stopConsuming_fst]
      exact .refl g

/-! ## Replies -/

/-- The cases of a reply to a call: the system it is settled in, and what the call comes to. -/
inductive Settles (s : Sys) (call : Call) : Reply → Sys → RabbitMqGateway × Option Await → Prop
  | connect (name : String) (h : call.awaits = .connectionFactory) :
      Settles s call (.done name) s.connected (s.connected.gateway.restore call.request 0)
  | refuse (h : call.awaits = .connectionFactory) :
      Settles s call .failed s s.gateway.connectFailed
  | restore {turn : ℕ} {subscription : Subscription} {channel : ℕ} {op : Subscribing} (name : String)
      (h : call.awaits = .restore turn subscription channel op)
      (hc : s.gateway.connection = some channel) (ht : op.takes subscription name = true) :
      Settles s call (.done name) (s.bind subscription op)
        (restored call.request turn subscription channel
          (s.gateway.advance subscription channel name op))
  | restoreFail {turn : ℕ} {subscription : Subscription} {channel : ℕ} {op : Subscribing}
      (h : call.awaits = .restore turn subscription channel op) :
      Settles s call .failed s s.gateway.connectFailed
  | subscribe {subscription : Subscription} {channel : ℕ} {op : Subscribing} (name : String)
      (h : call.awaits = .subscribe channel op) (hr : call.request = .subscribe subscription)
      (hc : s.gateway.connection = some channel) (ht : op.takes subscription name = true) :
      Settles s call (.done name) (s.bind subscription op)
        (subscribed channel (s.gateway.advance subscription channel name op))
  | subscribeFail {channel : ℕ} {op : Subscribing} (h : call.awaits = .subscribe channel op) :
      Settles s call .failed s (s.gateway, none)
  | cancel {connection : ℕ} {queues : List String} (queue : String) (ok : Bool)
      (h : call.awaits = .stopConsuming connection queues) :
      Settles s call (.cancelled queue ok) s
        ((if ok then s.gateway.deleteConsumer queue else s.gateway).stopConsuming connection
          (queues.erase queue))
  | close {connection : ℕ} (name : String) (h : call.awaits = .close connection)
      (hc : s.gateway.connection = some connection) :
      Settles s call (.done name) s.onConnectionClosed
        (if s.onConnectionClosed.gateway.connection.isSome then s.onConnectionClosed.gateway.cleanup
          else s.onConnectionClosed.gateway, none)
  | closeFail {connection : ℕ} (h : call.awaits = .close connection) :
      Settles s call .failed s (s.gateway, none)

theorem reply_settles {s s' : Sys} {i : ℕ} {call : Call} {reply : Reply}
    (h : s.reply i call reply = some s') :
    ∃ t result, Settles s call reply t result ∧ s' = t.settle i call.request result := by
  unfold Sys.reply at h
  split at h
  · rename_i name ha
    exact ⟨_, _, .connect name ha, (Option.some.inj h).symm⟩
  · rename_i ha
    exact ⟨_, _, .refuse ha, (Option.some.inj h).symm⟩
  · rename_i turn subscription channel op name ha
    split_ifs at h with hc
    obtain ⟨hc, ht⟩ := Bool.and_eq_true_iff.1 hc
    exact ⟨_, _, .restore name ha (of_decide_eq_true hc) ht, (Option.some.inj h).symm⟩
  · rename_i ha
    exact ⟨_, _, .restoreFail ha, (Option.some.inj h).symm⟩
  · rename_i channel op name ha
    split at h
    · rename_i subscription hr
      split_ifs at h with hc
      obtain ⟨hc, ht⟩ := Bool.and_eq_true_iff.1 hc
      exact ⟨_, _, .subscribe name ha hr (of_decide_eq_true hc) ht, (Option.some.inj h).symm⟩
    · cases h
  · rename_i ha
    exact ⟨_, _, .subscribeFail ha, (Option.some.inj h).symm⟩
  · rename_i connection queues queue ok ha
    split_ifs at h with hq hok
    · exact ⟨_, _, .cancel queue ok ha, by rw [if_pos hok]; exact (Option.some.inj h).symm⟩
    · exact ⟨_, _, .cancel queue ok ha, by rw [if_neg hok]; exact (Option.some.inj h).symm⟩
  · rename_i connection name ha
    split_ifs at h with hc
    · exact ⟨_, _, .close name ha hc, (Option.some.inj h).symm⟩
  · rename_i ha
    exact ⟨_, _, .closeFail ha, (Option.some.inj h).symm⟩
  · cases h

/-! ## The lease -/

/-- At most one call has the lease, and the lock is held while one does. -/
structure Leased (s : Sys) : Prop where
  one : s.running.length ≤ 1
  held : s.lock.holds "" ↔ s.running ≠ []

theorem Leased.running_eq {s : Sys} (h : Leased s) {i : ℕ} {call : Call}
    (hi : s.running[i]? = some call) : i = 0 ∧ s.running = [call] := by
  have hone := h.one
  rcases hr : s.running with _ | ⟨c, l⟩
  · rw [hr] at hi
    cases hi
  · rw [hr] at hi hone
    obtain rfl : l = [] := by simpa using hone
    rcases i with _ | i
    · exact ⟨rfl, by rw [Option.some.inj hi]⟩
    · cases hi

theorem leased_run {s : Sys} (hheld : s.lock.holds "") (hr : s.running = []) (request : Request) :
    Leased (s.run request) := by
  have hk := granted_keeps s.gateway request
  unfold Sys.run
  split
  · rename_i g op h
    rw [h] at hk
    refine ⟨by simp [hr], iff_of_true ?_ (by simp)⟩
    show g.stateChangeLock.holds ""
    rw [hk.stateChangeLock]
    exact hheld
  · refine ⟨by simp [hr], iff_of_false (fun hh => ?_) (by simp [hr])⟩
    exact ((Lock.release_holds _ "" "").1 hh).1 rfl

theorem leased_acquired {s : Sys} (h : Leased s) {lock : Lock} {awaits : Acquiring}
    (hg : s.lock.Grants "" lock awaits) (request : Request) :
    Leased (s.acquired request lock awaits) := by
  unfold Sys.acquired
  split_ifs with ha
  · have hr : s.running = [] := by
      by_contra hr
      exact hg.free ha (h.held.2 hr)
    exact leased_run (s := s.withLock lock) (hg.held ha) hr request
  · refine ⟨h.one, ?_⟩
    show lock.holds "" ↔ s.running ≠ []
    rw [hg.same ha]
    exact h.held

theorem leased_request {s : Sys} (h : Leased s) (request : Request) :
    Leased (s.request request) :=
  leased_acquired (s := s.desire request) ⟨h.one, h.held⟩ (Lock.acquire_spec rfl) request

/-- With a call that has the lease, a request waits. -/
theorem request_of_running {s : Sys} (h : Leased s) (hr : s.running ≠ []) (request : Request) :
    s.request request =
      ((s.desire request).withLock (s.lock.acquire "").1).wait request (s.lock.acquire "").2 := by
  have hg : s.lock.Grants "" (s.lock.acquire "").1 (s.lock.acquire "").2 := Lock.acquire_spec rfl
  have ha : (s.lock.acquire "").2 ≠ .acquired := fun ha => hg.free ha (h.held.2 hr)
  unfold Sys.request Sys.acquired
  rw [if_neg ha]

theorem leased_reconnect {s : Sys} (h : Leased s) : Leased s.reconnect := by
  unfold Sys.reconnect
  split_ifs
  · exact h
  · exact leased_request h .connect

theorem leased_closed {s : Sys} (h : Leased s) : Leased s.onConnectionClosed := by
  unfold Sys.onConnectionClosed
  have hc : Leased s.cleanup := ⟨h.one, h.held⟩
  split_ifs
  · exact leased_reconnect hc
  · exact hc

/-- The connection that closes leaves the call that has the lease. -/
theorem running_closed {s : Sys} (h : Leased s) {call : Call} (hr : s.running = [call]) :
    s.onConnectionClosed.running = [call]
      ∧ s.onConnectionClosed.gateway.connection = none := by
  unfold Sys.onConnectionClosed Sys.reconnect
  have hc : Leased s.cleanup := ⟨h.one, h.held⟩
  have hne : s.cleanup.running ≠ [] := fun hnil => by
    rw [show s.cleanup.running = s.running from rfl, hr] at hnil
    cases hnil
  split_ifs
  · exact ⟨hr, rfl⟩
  · rw [request_of_running hc hne]
    exact ⟨hr, rfl⟩
  · exact ⟨hr, rfl⟩

theorem leased_settle {s : Sys} (h : Leased s) {call : Call} (hr : s.running = [call])
    {result : RabbitMqGateway × Option Await}
    (hl : result.1.stateChangeLock = s.lock) : Leased (s.settle 0 call.request result) := by
  obtain ⟨g, op⟩ := result
  cases op with
  | some op =>
    refine ⟨by simp [Sys.settle, hr], iff_of_true ?_ (by simp [Sys.settle, hr])⟩
    show g.stateChangeLock.holds ""
    rw [show g.stateChangeLock = s.lock from hl]
    exact h.held.2 (by simp [hr])
  | none =>
    refine ⟨by simp [Sys.settle, hr], iff_of_false (fun hh => ?_) (by simp [Sys.settle, hr])⟩
    exact ((Lock.release_holds _ "" "").1 hh).1 rfl

/-- What the broker binds in the operation. -/
def Subscribing.binds (subscription : Subscription) : Subscribing → List Binding
  | .bindQueue .deadLetter queue =>
    [{ exchange := subscription.exchange ++ ".failed", queue, pattern := "#" }]
  | .bindQueue _ queue => [subscription.binding queue]
  | _ => []

theorem bind_bound (s : Sys) (subscription : Subscription) (op : Subscribing) :
    s.bind subscription op = { s with bound := s.bound ++ op.binds subscription } := by
  unfold Sys.bind
  split
  · rfl
  · rename_i kind queue hkind
    cases kind with
    | deadLetter => exact absurd rfl hkind
    | durable => rfl
    | exclusive => rfl
    | existing => rfl
  · rename_i hkind
    cases op with
    | bindQueue kind queue => exact absurd rfl (hkind kind queue)
    | _ => simp [Subscribing.binds]

theorem bind_eq (s : Sys) (subscription : Subscription) (op : Subscribing) :
    ∃ bound, s.bind subscription op = { s with bound } :=
  ⟨_, bind_bound s subscription op⟩

/-- What a reply is settled in has the call, and the result the lock. -/
theorem Settles.leased {s t : Sys} {call : Call} {reply : Reply}
    {result : RabbitMqGateway × Option Await} (h : Leased s) (hr : s.running = [call])
    (hs : Settles s call reply t result) :
    Leased t ∧ t.running = [call] ∧ result.1.stateChangeLock = t.lock := by
  cases hs with
  | connect name ha =>
    exact ⟨⟨h.one, h.held⟩, hr, (restore_keeps _ _ _).stateChangeLock⟩
  | refuse ha => exact ⟨h, hr, (scheduleReconnect_keeps _).stateChangeLock⟩
  | @restore turn subscription channel op name ha hc ht =>
    obtain ⟨bound, hb⟩ := bind_eq s subscription op
    rw [hb]
    refine ⟨⟨h.one, h.held⟩, hr, ?_⟩
    exact ((advance_keeps _ _ _ _ _).comp (restored_keeps _ _ _ _ _)).stateChangeLock
  | restoreFail ha => exact ⟨h, hr, (scheduleReconnect_keeps _).stateChangeLock⟩
  | @subscribe subscription channel op name ha hreq hc ht =>
    obtain ⟨bound, hb⟩ := bind_eq s subscription op
    rw [hb, subscribed_fst]
    exact ⟨⟨h.one, h.held⟩, hr, (advance_keeps _ _ _ _ _).stateChangeLock⟩
  | subscribeFail ha => exact ⟨h, hr, rfl⟩
  | cancel queue ok ha =>
    rw [stopConsuming_fst]
    refine ⟨h, hr, ?_⟩
    split_ifs <;> rfl
  | close name ha hc =>
    refine ⟨leased_closed h, (running_closed h hr).1, ?_⟩
    split_ifs <;> rfl
  | closeFail ha => exact ⟨h, hr, rfl⟩

/-- `unsubscribe` changes the subscriptions and the consumers only. -/
theorem unsubscribe_eq (s : Sys) (key : SubscriptionKey) :
    ∃ subscriptions queueConsumers cancelling, s.unsubscribe key =
      { s with gateway := { s.gateway with subscriptions, queueConsumers }, cancelling } := by
  unfold Sys.unsubscribe
  split
  · exact ⟨_, _, _, rfl⟩
  · dsimp only
    split
    · exact ⟨_, _, _, rfl⟩
    · split_ifs
      · exact ⟨_, _, _, rfl⟩
      · exact ⟨_, _, _, rfl⟩

/-- The forms of a step. -/
inductive Steps (s : Sys) : Action → Sys → Prop
  | request {a : Action} {request : Request} (ha : a.request = some request) :
      Steps s a (s.request request)
  | invalid {a : Action} (ha : a.request = none) : Steps s a s
  | unsubscribe (key : SubscriptionKey) : Steps s (.unsubscribe key) (s.unsubscribe key)
  | wake {request : Request} {awaits : Acquiring} {lock : Lock} {awaits' : Acquiring}
      (hf : s.waiting.find? (s.lock.woken ·.2) = some (request, awaits))
      (hl : s.lock.resume "" awaits = some (lock, awaits')) :
      Steps s .wake (s.resumed.acquired request lock awaits')
  | reply {i : ℕ} {reply : Reply} {call : Call} {t : Sys} {result : RabbitMqGateway × Option Await}
      (hq : s.waiting.any (s.lock.woken ·.2) = false) (hi : s.running[i]? = some call)
      (hs : Settles s call reply t result) :
      Steps s (.reply i reply) (t.settle i call.request result)
  | cancelled (hq : s.waiting.any (s.lock.woken ·.2) = false) :
      Steps s .cancelled { s with cancelling := s.cancelling - 1 }
  | timer (hq : s.waiting.any (s.lock.woken ·.2) = false) :
      Steps s .timer s.clearReconnectTimer.reconnect
  | lost (hq : s.waiting.any (s.lock.woken ·.2) = false) (hc : s.gateway.connection.isSome = true) :
      Steps s .lost s.onConnectionClosed

theorem steps_requested {s : Sys} (a : Action) :
    Steps s a ((a.request.map s.request).getD s) := by
  rcases h : a.request with _ | request
  · exact .invalid h
  · exact .request h

theorem step_cases {s s' : Sys} {a : Action} (h : step s a = some s') : Steps s a s' := by
  unfold step at h
  split at h
  · exact Option.some.inj h ▸ steps_requested _
  · exact Option.some.inj h ▸ steps_requested _
  · exact Option.some.inj h ▸ steps_requested _
  · exact Option.some.inj h ▸ .unsubscribe _
  · obtain ⟨⟨request, awaits⟩, hf, h⟩ := Option.bind_eq_some_iff.1 h
    obtain ⟨⟨lock, awaits'⟩, hl, rfl⟩ := Option.map_eq_some_iff.1 h
    exact .wake hf hl
  · split_ifs at h with hq
    have hq := Bool.eq_false_iff.2 hq
    unfold Sys.event at h
    split at h
    · obtain ⟨call, hi, h⟩ := Option.bind_eq_some_iff.1 h
      obtain ⟨t, result, hs, rfl⟩ := reply_settles h
      exact .reply hq hi hs
    · split_ifs at h
      exact Option.some.inj h ▸ .cancelled hq
    · split_ifs at h
      exact Option.some.inj h ▸ .timer hq
    · split_ifs at h with hc
      exact Option.some.inj h ▸ .lost hq hc
    · cases h

theorem leased_step {s s' : Sys} {a : Action} (h : Leased s) (hst : step s a = some s') :
    Leased s' := by
  cases step_cases hst with
  | request ha => exact leased_request h _
  | invalid ha => exact h
  | unsubscribe key =>
    obtain ⟨_, _, _, he⟩ := unsubscribe_eq s key
    exact he ▸ ⟨h.one, h.held⟩
  | wake hf hl => exact leased_acquired (s := s.resumed) ⟨h.one, h.held⟩ (Lock.resume_spec hl) _
  | reply hq hi hs =>
    obtain ⟨rfl, hr⟩ := h.running_eq hi
    obtain ⟨ht, htr, hlock⟩ := hs.leased h hr
    exact leased_settle ht htr hlock
  | cancelled hq => exact ⟨h.one, h.held⟩
  | timer hq => exact leased_reconnect (s := s.clearReconnectTimer) ⟨h.one, h.held⟩
  | lost hq hc => exact leased_closed h

theorem leased_init : Leased {} := by
  refine ⟨Nat.zero_le 1, ?_⟩
  simp [Lock.holds, Sys.lock]

end RabbitMqGateway

end NodeCqrs
