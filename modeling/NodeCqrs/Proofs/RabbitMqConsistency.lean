import NodeCqrs.Proofs.RabbitMqRestore

/-!
# Consumers and subscriptions of a gateway that is idle

Where what is awaited succeeds while the connection is up, what is due is established after every
step (`consistent_step`), so an idle gateway that is connected consumes from the queues of its
subscriptions and no other. After an operation of a restore has failed the gateway is behind, and
stays so as long as the connection is up; the reconnect timer is pending until it fires, or a call
clears it.
-/

namespace NodeCqrs

namespace RabbitMqGateway

def Action.fails : Action → Bool
  | .reply _ .failed => true
  | _ => false

def Await.restores : Await → Bool
  | .restore .. => true
  | _ => false

/-- An operation of a restore fails while the connection is up. -/
def FailsRestore (s : Sys) (a : Action) : Prop :=
  a.fails = true ∧ s.gateway.connection.isSome = true ∧ ∃ c ∈ s.running, c.awaits.restores = true

/-- What is awaited on a connection succeeds while the connection is up. -/
def Succeeds (s : Sys) (a : Action) : Prop := a.fails = true → s.gateway.connection = none

/-- While the connection is up, only operations of a restore fail. -/
def SucceedsUnlessRestoring (s : Sys) (a : Action) : Prop :=
  Succeeds s a ∨ FailsRestore s a

/-- What is subscribed to can be established, a consumer made with the limit of the subscription it
is made for, and `unsubscribe` is not of a record that the call in progress is at, nor of one it has
gone through where others are left. -/
def Proper (s : Sys) : Action → Prop
  | .subscribe subscription => subscription.check.isOk = true → subscription.Valid
  | .reply i (.done _) => ∀ c ∈ s.running[i]?, ∀ x ∈ c.establishing, s.gateway.Limits x.1 x.2
  | .unsubscribe key => s.gateway.connection.isSome = true →
      ∀ c ∈ s.running, ∀ r ∈ c.passed s.gateway.subscriptions, r.key ≠ key
  | _ => True

instance (s : Sys) (a : Action) : Decidable (FailsRestore s a) :=
  inferInstanceAs (Decidable (_ ∧ _ ∧ _))

instance (s : Sys) (a : Action) : Decidable (Succeeds s a) := inferInstanceAs (Decidable (_ → _))

instance (s : Sys) (a : Action) : Decidable (SucceedsUnlessRestoring s a) :=
  inferInstanceAs (Decidable (_ ∨ _))

instance (s : Sys) : (a : Action) → Decidable (Proper s a)
  | .connect | .disconnect | .wake | .reply _ .failed | .reply _ (.cancelled ..) | .cancelled
  | .timer | .lost => inferInstanceAs (Decidable True)
  | .subscribe _ => inferInstanceAs (Decidable (_ → _))
  | .reply i (.done _) => inferInstanceAs (Decidable (∀ c ∈ s.running[i]?, ∀ x ∈ c.establishing,
      s.gateway.Limits x.1 x.2))
  | .unsubscribe _ => inferInstanceAs (Decidable (_ → _))

structure Consistent (behind : Prop) (s : Sys) : Prop where
  leased : Leased s
  waiting : ∀ w ∈ s.waiting, w.1.Valid
  running : ∀ c ∈ s.running, c.request.Valid
  tracks : Tracks behind s.gateway s.bound s.running.head?

theorem Tracks.mono {behind behind' : Prop} (hb : behind → behind') {g : RabbitMqGateway}
    {bound : List Binding} {call : Option Call} (h : Tracks behind g bound call) :
    Tracks behind' g bound call :=
  ⟨h.recorded, h.connecting, fun hc => (h.settled hc).imp_left hb, h.flight⟩

theorem Consistent.mono {behind behind' : Prop} (hb : behind → behind') {s : Sys}
    (h : Consistent behind s) : Consistent behind' s :=
  ⟨h.leased, h.waiting, h.running, h.tracks.mono hb⟩

section

variable {behind : Prop} {s : Sys}

theorem consistent_run (hheld : s.lock.holds "") (hr : s.running = [])
    (hw : ∀ w ∈ s.waiting, w.1.Valid) (ht : Tracks behind s.gateway s.bound none)
    {request : Request} (hv : request.Valid) : Consistent behind (s.run request) := by
  have hl := leased_run hheld hr request
  have htr := granted_tracks ht hv
  unfold Sys.run at hl ⊢
  rcases hg : s.gateway.granted request with ⟨g, _ | awaits⟩
  · rw [hg] at hl htr
    refine ⟨hl, hw, fun c hc => ?_, ?_⟩
    · have hc : c ∈ s.running := hc
      rw [hr] at hc
      cases hc
    · show Tracks behind g.release s.bound s.running.head?
      rw [hr]
      exact Tracks.alike (g := g) ⟨rfl, rfl, rfl, rfl⟩ htr
  · rw [hg] at hl htr
    refine ⟨hl, hw, fun c hc => ?_, ?_⟩
    · have hc : c ∈ s.running ++ [(⟨request, awaits⟩ : Call)] := hc
      rw [hr] at hc
      rw [List.mem_singleton.1 hc]
      exact hv
    · show Tracks behind g s.bound (s.running ++ [(⟨request, awaits⟩ : Call)]).head?
      rw [hr]
      exact htr

theorem Consistent.acquired (h : Consistent behind s) {lock : Lock} {awaits : Acquiring}
    (hg : s.lock.Grants "" lock awaits) {request : Request} (hv : request.Valid) :
    Consistent behind (s.acquired request lock awaits) := by
  have hl := leased_acquired h.leased hg request
  unfold Sys.acquired at hl ⊢
  split_ifs at hl ⊢ with ha
  · have hr : s.running = [] := by
      by_contra hr
      exact hg.free ha (h.leased.held.2 hr)
    refine consistent_run (s := s.withLock lock) (hg.held ha) hr h.waiting ?_ hv
    have ht := h.tracks
    rw [hr] at ht
    exact Tracks.alike (g := s.gateway) ⟨rfl, rfl, rfl, rfl⟩ ht
  · refine ⟨hl, fun w hw => ?_, h.running,
      Tracks.alike (g := s.gateway) ⟨rfl, rfl, rfl, rfl⟩ h.tracks⟩
    rcases List.mem_append.1 hw with hw | hw
    · exact h.waiting w hw
    · rw [List.mem_singleton.1 hw]
      exact hv

theorem Consistent.request (h : Consistent behind s) {request : Request} (hv : request.Valid) :
    Consistent behind (s.request request) := by
  have hd : Consistent behind (s.desire request) :=
    ⟨⟨h.leased.one, h.leased.held⟩, h.waiting, h.running,
      Tracks.alike (g := s.gateway) ⟨rfl, rfl, rfl, rfl⟩ h.tracks⟩
  exact hd.acquired (Lock.acquire_spec rfl) hv

theorem Consistent.reconnect (h : Consistent behind s) : Consistent behind s.reconnect := by
  unfold Sys.reconnect
  split_ifs
  · exact h
  · exact h.request trivial

theorem Consistent.closed (h : Consistent behind s) : Consistent behind s.onConnectionClosed := by
  have hc : Consistent behind s.cleanup :=
    ⟨⟨h.leased.one, h.leased.held⟩, h.waiting, h.running, cleanup_tracks h.tracks.recorded _⟩
  unfold Sys.onConnectionClosed
  split_ifs
  · exact hc.reconnect
  · exact hc

theorem consistent_settle {call : Call} {result : RabbitMqGateway × Option Await}
    (hl : Leased s) (hr : s.running = [call]) (hlock : result.1.stateChangeLock = s.lock)
    (hw : ∀ w ∈ s.waiting, w.1.Valid) (hv : call.request.Valid)
    (ht : Tracks behind result.1 s.bound (result.2.map (Call.mk call.request))) :
    Consistent behind (s.settle 0 call.request result) := by
  have hl' := leased_settle hl hr hlock
  obtain ⟨g, _ | awaits⟩ := result
  · refine ⟨hl', hw, fun c hc => ?_, ?_⟩
    · simp [Sys.settle, hr] at hc
    · show Tracks behind g.release s.bound (s.running.eraseIdx 0).head?
      rw [hr]
      exact Tracks.alike (g := g) ⟨rfl, rfl, rfl, rfl⟩ ht
  · refine ⟨hl', hw, fun c hc => ?_, ?_⟩
    · have hc : c ∈ s.running.set 0 (⟨call.request, awaits⟩ : Call) := hc
      rw [hr] at hc
      rw [List.mem_singleton.1 hc]
      exact hv
    · show Tracks behind g s.bound (s.running.set 0 ⟨call.request, awaits⟩).head?
      rw [hr]
      exact ht

/-- A call that is over, with no connection. -/
theorem tracks_over {g : RabbitMqGateway} {bound : List Binding} (h : g.Recorded)
    (hc : g.connection = none) : Tracks behind g bound none := by
  refine tracks_none h fun hsome => ?_
  rw [hc] at hsome
  cases hsome

theorem scheduleReconnect_alike (g : RabbitMqGateway) : Alike g g.scheduleReconnect := by
  unfold scheduleReconnect
  split_ifs
  · exact ⟨rfl, rfl, rfl, rfl⟩
  · exact ⟨rfl, rfl, rfl, rfl⟩

theorem Recorded.deleteConsumer {g : RabbitMqGateway} (h : g.Recorded) (queue : String) :
    (g.deleteConsumer queue).Recorded := by
  refine ⟨h.distinct, h.valid, h.named, fun q hc => ?_, fun q hc => ?_, h.exclusive⟩
  · exact h.consumed q (hasConsumer_deleteConsumer.1 hc).2
  · exact h.reserved q (hasConsumer_deleteConsumer.1 hc).2

/-- The operation of a restore that is over. -/
theorem settles_restore {call : Call} (h : Tracks behind s.gateway s.bound (some call))
    (hv : call.request.Valid) {turn : ℕ} {subscription : Subscription} {channel : ℕ}
    {op : Subscribing} (ha : call.awaits = .restore turn subscription channel op)
    (hc : s.gateway.connection = some channel) {name : String}
    (ht : op.takes subscription name = true) (hlim : s.gateway.Limits subscription op) :
    Tracks behind (restored call.request turn subscription channel
        (s.gateway.advance subscription channel name op)).1
      (s.bound ++ op.binds subscription)
      ((restored call.request turn subscription channel
        (s.gateway.advance subscription channel name op)).2.map (Call.mk call.request)) := by
  obtain ⟨request, awaits⟩ := call
  obtain rfl : awaits = .restore turn subscription channel op := ha
  have hsome : s.gateway.connection.isSome = true := by rw [hc]; rfl
  obtain ⟨l, r, hl, rfl, hp⟩ := h.flight hsome _ rfl subscription op rfl
  have hs := h.settled hsome
  have hd : due (some ⟨request, .restore turn r.toSubscription channel op⟩)
      s.gateway.subscriptions = l.drop (l.length - turn) := by
    rw [hl]
    exact due_restore l r turn
  rw [hd] at hs
  refine restored_tracks (advance_advanced h.recorded hl hp ht hlim channel) ?_ hv hs channel
  rw [(advance_keeps _ _ _ _ _).connection]
  exact hsome

/-- The operation of a `subscribe` that is over. -/
theorem settles_subscribe {channel : ℕ} {op : Subscribing} {subscription : Subscription}
    (h : Tracks behind s.gateway s.bound (some ⟨.subscribe subscription, .subscribe channel op⟩))
    (hc : s.gateway.connection = some channel) {name : String}
    (ht : op.takes subscription name = true) (hlim : s.gateway.Limits subscription op) :
    Tracks behind (subscribed channel (s.gateway.advance subscription channel name op)).1
      (s.bound ++ op.binds subscription)
      ((subscribed channel (s.gateway.advance subscription channel name op)).2.map
        (Call.mk (.subscribe subscription))) := by
  have hsome : s.gateway.connection.isSome = true := by rw [hc]; rfl
  obtain ⟨l, r, hl, rfl, hp⟩ := h.flight hsome _ rfl subscription op rfl
  have hs := h.settled hsome
  have hd : due (some ⟨.subscribe r.toSubscription, .subscribe channel op⟩)
      s.gateway.subscriptions = l := by
    rw [hl]
    exact List.dropLast_concat
  rw [hd] at hs
  exact subscribed_tracks (advance_advanced h.recorded hl hp ht hlim channel) hs channel

theorem Consistent.settles {t : Sys} {call : Call} {i : ℕ} {reply : Reply}
    {result : RabbitMqGateway × Option Await} (h : Consistent behind s) (hr : s.running = [call])
    (hi : s.running[i]? = some call) (hp : Proper s (.reply i reply))
    (hf : SucceedsUnlessRestoring s (.reply i reply)) (hs : Settles s call reply t result) :
    Consistent (behind ∨ FailsRestore s (.reply i reply)) (t.settle 0 call.request result) := by
  obtain ⟨hl, htr, hlock⟩ := hs.leased h.leased hr
  have hv : call.request.Valid := h.running call (by simp [hr])
  have ht : Tracks behind s.gateway s.bound (some call) := by
    have ht := h.tracks
    rwa [hr] at ht
  -- what failed was on a connection that is lost, unless it was of a restore
  have hover : reply = .failed → call.awaits.restores = false → s.gateway.connection = none := by
    rintro rfl hno
    rcases hf with hf | ⟨-, -, c, hc, hres⟩
    · exact hf rfl
    · rw [hr] at hc
      rw [List.mem_singleton.1 hc, hno] at hres
      cases hres
  cases hs with
  | connect name ha =>
    refine Consistent.mono Or.inl (consistent_settle hl htr hlock h.waiting hv ?_)
    have hrec := ht.recorded
    have hrec' : s.connected.gateway.Recorded :=
      ⟨hrec.distinct, hrec.valid, hrec.named, hrec.consumed, hrec.reserved, hrec.exclusive⟩
    refine restore_tracks hrec' rfl hv (.inr fun r hr => ?_)
    rw [Nat.sub_zero, List.drop_length] at hr
    cases hr
  | refuse ha =>
    refine Consistent.mono Or.inl (consistent_settle hl htr hlock h.waiting hv ?_)
    have halike := scheduleReconnect_alike s.gateway
    exact tracks_over (ht.recorded.alike halike)
      (halike.connection.trans (ht.connecting call rfl ha))
  | @restore turn subscription channel op name ha hc htakes =>
    refine Consistent.mono Or.inl (consistent_settle hl htr hlock ?_ hv ?_)
    · rw [bind_bound]
      exact h.waiting
    · rw [bind_bound]
      refine settles_restore ht hv ha hc htakes (hp call hi (subscription, op) ?_)
      rw [Call.establishing_restore ha]
      rfl
  | restoreFail ha =>
    refine consistent_settle hl htr hlock h.waiting hv ?_
    have halike := scheduleReconnect_alike s.gateway
    refine tracks_none (ht.recorded.alike halike) fun hsome => .inl (.inr ⟨rfl, ?_, call, ?_, ?_⟩)
    · exact halike.connection ▸ hsome
    · simp [hr]
    · rw [ha]
      rfl
  | @subscribe subscription channel op name ha hreq hc htakes =>
    refine Consistent.mono Or.inl (consistent_settle hl htr hlock ?_ hv ?_)
    · rw [bind_bound]
      exact h.waiting
    · obtain ⟨request, awaits⟩ := call
      obtain rfl : request = .subscribe subscription := hreq
      obtain rfl : awaits = .subscribe channel op := ha
      rw [bind_bound]
      exact settles_subscribe ht hc htakes (hp _ hi (subscription, op) rfl)
  | subscribeFail ha =>
    refine Consistent.mono Or.inl (consistent_settle hl htr hlock h.waiting hv ?_)
    exact tracks_over ht.recorded (hover rfl (by rw [ha]; rfl))
  | cancel queue ok ha =>
    refine Consistent.mono Or.inl (consistent_settle hl htr hlock h.waiting hv ?_)
    refine stopConsuming_tracks ?_ _ _ _
    split_ifs
    · exact ht.recorded.deleteConsumer queue
    · exact ht.recorded
  | close name ha hc =>
    have hcl := h.closed
    obtain ⟨-, hnone⟩ := running_closed h.leased hr
    refine Consistent.mono Or.inl (consistent_settle hl htr hlock hcl.waiting hv ?_)
    rw [if_neg (by rw [hnone]; exact Bool.false_ne_true)]
    exact tracks_over hcl.tracks.recorded hnone
  | closeFail ha =>
    refine Consistent.mono Or.inl (consistent_settle hl htr hlock h.waiting hv ?_)
    exact tracks_over ht.recorded (hover rfl (by rw [ha]; rfl))

end

theorem request_valid {s : Sys} {a : Action} (h : Proper s a) {request : Request}
    (ha : a.request = some request) : request.Valid := by
  cases a with
  | connect => exact Option.some.inj ha ▸ trivial
  | disconnect => exact Option.some.inj ha ▸ trivial
  | subscribe subscription =>
    unfold Action.request at ha
    simp only at ha
    split_ifs at ha with hok
    exact Option.some.inj ha ▸ h hok
  | _ => cases ha

/-- What is due stays established, unless an operation of a restore fails. -/
theorem consistent_step {behind : Prop} {s s' : Sys} {a : Action} (h : Consistent behind s)
    (hp : Proper s a) (hf : SucceedsUnlessRestoring s a) (hst : step s a = some s') :
    Consistent (behind ∨ FailsRestore s a) s' := by
  cases step_cases hst with
  | request ha => exact (h.request (request_valid hp ha)).mono .inl
  | invalid ha => exact h.mono .inl
  | unsubscribe key =>
    have ht : Tracks behind (s.unsubscribe key).gateway s.bound s.running.head? :=
      unsubscribe_tracks h.tracks fun hc c hcall => hp hc c (List.mem_of_mem_head? hcall)
    obtain ⟨_, _, _, he⟩ := unsubscribe_eq s key
    rw [he] at ht ⊢
    exact Consistent.mono Or.inl
      ⟨⟨h.leased.one, h.leased.held⟩, h.waiting, h.running, ht⟩
  | @wake request awaits lock awaits' hw hl =>
    have hv : request.Valid := h.waiting _ (List.mem_of_find?_eq_some hw)
    have hr : Consistent behind s.resumed :=
      ⟨⟨h.leased.one, h.leased.held⟩, fun w hw => h.waiting w (List.mem_of_mem_eraseP hw),
        h.running, h.tracks⟩
    exact (hr.acquired (Lock.resume_spec hl) hv).mono .inl
  | reply hq hi hs =>
    obtain ⟨rfl, hr⟩ := h.leased.running_eq hi
    exact h.settles hr hi hp hf hs
  | cancelled hq =>
    exact Consistent.mono Or.inl
      ⟨⟨h.leased.one, h.leased.held⟩, h.waiting, h.running, h.tracks⟩
  | timer hq =>
    have ht : Consistent behind s.clearReconnectTimer :=
      ⟨⟨h.leased.one, h.leased.held⟩, h.waiting, h.running,
        Tracks.alike (g := s.gateway) ⟨rfl, rfl, rfl, rfl⟩ h.tracks⟩
    exact ht.reconnect.mono .inl
  | lost hq hc => exact h.closed.mono .inl

theorem consistent_init : Consistent False {} := by
  have hno : ∀ queue, ({} : RabbitMqGateway).hasConsumer queue = false := fun _ => rfl
  have hrec : ({} : RabbitMqGateway).Recorded := by
    refine ⟨List.nodup_nil, fun r hr => ?_, fun r hr => ?_, fun queue hc => ?_,
      fun queue hc => ?_, fun h => absurd rfl h⟩
    · cases hr
    · cases hr
    · rw [hno queue] at hc
      cases hc
    · rw [hno queue] at hc
      cases hc
  refine ⟨leased_init, fun w hw => ?_, fun c hc => ?_, tracks_none hrec fun hc => ?_⟩
  · cases hw
  · cases hc
  · cases hc

/-- In every run in which what is awaited succeeds while the connection is up, and subscriptions are
subscribed to and taken out properly: an idle gateway that is connected consumes from exactly the
queues of its subscriptions, and each has been bound on the connection. -/
theorem consumers_of_subscriptions {l : List Action} {s : Sys} (hrun : machine.run {} l = some s)
    (hl : machine.Along (fun s a => Succeeds s a ∧ Proper s a) {} l) (hi : s.Idle)
    (hc : s.gateway.connection.isSome = true) :
    (∀ queue, s.gateway.hasConsumer queue = true ↔
        ∃ r ∈ s.gateway.subscriptions, s.gateway.queueOf r.toSubscription = some queue)
      ∧ ∀ r ∈ s.gateway.subscriptions, ∃ queue, s.gateway.queueOf r.toSubscription = some queue
        ∧ ∀ b ∈ r.bindings queue, b ∈ s.bound := by
  have hreach := (Machine.ReachIf.init (M := machine) rfl).run hl hrun
  have hcons : Consistent False s := by
    refine hreach.invariant (fun s (h0 : s = {}) => h0 ▸ consistent_init) ?_
    intro s a s' h ⟨hsucc, hproper⟩ hst
    refine (consistent_step h hproper (.inl hsucc) hst).mono ?_
    rintro (hf | ⟨hf, hsome, -⟩)
    · exact hf
    · rw [hsucc hf] at hsome
      cases hsome
  obtain ⟨-, hr, -⟩ := hi
  have ht := hcons.tracks
  rw [hr] at ht
  have hest := (ht.settled hc).resolve_left id
  refine ⟨fun queue => ⟨fun hq => ?_, ?_⟩, fun r hr => ?_⟩
  · obtain ⟨r, hr, hn⟩ := ht.recorded.consumed queue hq
    obtain ⟨queue', hq', hn', -⟩ := hest r hr
    obtain rfl : queue = queue' := Option.some.inj (hn.symm.trans hn')
    exact ⟨r, hr, hq'⟩
  · rintro ⟨r, hr, hq⟩
    obtain ⟨queue', hq', -, -, hcons⟩ := hest r hr
    obtain rfl : queue = queue' := Option.some.inj (hq.symm.trans hq')
    exact hcons
  · obtain ⟨queue, hq, -, hb, -⟩ := hest r hr
    exact ⟨queue, hq, hb⟩

/-- A subscription that is taken up again after the connection is lost. -/
theorem consumers_of_subscriptions_restored :
    let a : Subscription :=
      { exchange := "e", queueName := some "a", deadLetterQueue := some false, handler := 1 }
    ∃ s, machine.run {} ([.subscribe a] ++ List.replicate 6 (.reply 0 (.done "")) ++ [.lost] ++
        List.replicate 6 (.reply 0 (.done ""))) = some s ∧
      (∀ queue, s.gateway.hasConsumer queue = true ↔
        ∃ r ∈ s.gateway.subscriptions, s.gateway.queueOf r.toSubscription = some queue)
      ∧ ∀ r ∈ s.gateway.subscriptions, ∃ queue, s.gateway.queueOf r.toSubscription = some queue
        ∧ ∀ b ∈ r.bindings queue, b ∈ s.bound :=
  ⟨_, rfl, consumers_of_subscriptions (l := [.subscribe
      { exchange := "e", queueName := some "a", deadLetterQueue := some false, handler := 1 }] ++
    List.replicate 6 (.reply 0 (.done "")) ++ [.lost] ++ List.replicate 6 (.reply 0 (.done ""))) rfl
    (by decide) ⟨rfl, rfl, rfl⟩ rfl⟩

/-- A subscription is taken out while its queue is being asserted. -/
theorem consumer_left :
    let a : Subscription :=
      { exchange := "e", queueName := some "a", deadLetterQueue := some false, handler := 1 }
    let l : List Action := [.subscribe a, .reply 0 (.done ""), .unsubscribe a.key] ++
      List.replicate 5 (.reply 0 (.done ""))
    ∃ s, machine.run {} l = some s ∧ machine.Along Succeeds {} l ∧ s.Idle
      ∧ s.gateway.connection.isSome = true ∧ s.gateway.reconnectTimeout = false
      ∧ s.gateway.hasConsumer "a" = true ∧ s.gateway.subscriptions = [] :=
  ⟨_, rfl, by decide, ⟨rfl, rfl, rfl⟩, rfl, rfl, rfl, rfl⟩

end RabbitMqGateway

end NodeCqrs
