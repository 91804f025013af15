import NodeCqrs.Proofs.RabbitMqConsistency
import NodeCqrs.Proofs.RabbitMqRequests

/-!
# A restore that failed is tried again

As long as a restore that failed is not made good (`Behind`), the reconnect timer is pending, unless
the gateway is to be disconnected or a `disconnect` waits to close the connection (`Retries`). The
timer that fires, and a call that clears it, leave the connection as it is, so this holds where the
connection is lost before (`Retried`).
-/

namespace NodeCqrs

namespace RabbitMqGateway

/-- The connection is up, and what is to be established by now is not. -/
def Behind (s : Sys) : Prop :=
  s.gateway.connection.isSome = true ∧
    ∃ r ∈ due s.running.head? s.gateway.subscriptions, ¬ s.gateway.Established s.bound r

instance (s : Sys) : Decidable (Behind s) := inferInstanceAs (Decidable (_ ∧ _))

/-- The timer fires, or a call that is to connect clears it. -/
def Action.clears (a : Action) : Bool :=
  a = .timer || a.request.any (·.desiredState = .connected)

def Sys.closing (s : Sys) : Prop := ∃ w ∈ s.waiting, w.1 = .disconnect

instance (s : Sys) : Decidable s.closing := inferInstanceAs (Decidable (∃ w ∈ s.waiting, _))

/-- The timer is not cleared while the gateway is behind, unless a `disconnect` waits. -/
def Retried (s : Sys) (a : Action) : Prop := a.clears = true → Behind s → s.closing

instance (s : Sys) (a : Action) : Decidable (Retried s a) := inferInstanceAs (Decidable (_ → _))

def Retries (s : Sys) : Prop :=
  Behind s →
    s.gateway.reconnectTimeout = true ∨ s.gateway.desiredState = .disconnected ∨ s.closing

/-- A step that leaves the gateway behind found it so, or failed a restore. -/
theorem behind_step {s s' : Sys} {a : Action} (h : Consistent True s) (hp : Proper s a)
    (hf : SucceedsUnlessRestoring s a) (hst : step s a = some s') (hb : Behind s') :
    Behind s ∨ FailsRestore s a := by
  have hs : Consistent (Behind s) s := by
    refine ⟨h.leased, h.waiting, h.running, h.tracks.recorded, h.tracks.connecting, fun hc => ?_,
      h.tracks.flight⟩
    by_cases hall : ∀ r ∈ due s.running.head? s.gateway.subscriptions,
        s.gateway.Established s.bound r
    · exact .inr hall
    · simp only [not_forall, exists_prop] at hall
      exact .inl ⟨hc, hall⟩
  obtain ⟨hc, r, hr, hne⟩ := hb
  exact ((consistent_step hs hp hf hst).tracks.settled hc).resolve_right fun hall => hne (hall r hr)

theorem closed_connection (s : Sys) : s.onConnectionClosed.gateway.connection = none := by
  have hrun : ∀ (t : Sys) (request : Request) (lock : Lock) (awaits : Acquiring),
      (t.acquired request lock awaits).gateway.connection = t.gateway.connection := by
    intro t request lock awaits
    unfold Sys.acquired
    split_ifs
    · exact (run_gateway (t.withLock lock) request).2.1
    · rfl
  unfold Sys.onConnectionClosed Sys.reconnect
  split_ifs
  · rfl
  · exact hrun _ _ _ _
  · rfl

/-- A reply that leaves the connection up leaves the timer and the calls that wait. -/
theorem Settles.timer {s t : Sys} {call : Call} {reply : Reply}
    {result : RabbitMqGateway × Option Await} (hs : Settles s call reply t result)
    (hc : result.1.connection.isSome = true) :
    (s.gateway.reconnectTimeout = true → result.1.reconnectTimeout = true)
      ∧ t.waiting = s.waiting := by
  cases hs with
  | connect name ha => exact ⟨(restore_keeps s.connected.gateway _ _).reconnectTimeout, rfl⟩
  | refuse ha => exact ⟨(scheduleReconnect_keeps _).reconnectTimeout, rfl⟩
  | @restore turn subscription channel op name ha hconn ht =>
    rw [bind_bound]
    exact ⟨((advance_keeps _ _ _ _ _).comp (restored_keeps _ _ _ _ _)).reconnectTimeout, rfl⟩
  | restoreFail ha => exact ⟨(scheduleReconnect_keeps _).reconnectTimeout, rfl⟩
  | @subscribe subscription channel op name ha hreq hconn ht =>
    rw [bind_bound, subscribed_fst]
    exact ⟨(advance_keeps _ _ _ _ _).reconnectTimeout, rfl⟩
  | subscribeFail ha => exact ⟨id, rfl⟩
  | cancel queue ok ha =>
    rw [stopConsuming_fst]
    split_ifs <;> exact ⟨id, rfl⟩
  | close name ha hconn =>
    have hnone := closed_connection s
    rw [if_neg (by rw [hnone]; exact Bool.false_ne_true)] at hc
    rw [show s.onConnectionClosed.gateway.connection = none from hnone] at hc
    cases hc
  | closeFail ha => exact ⟨id, rfl⟩

/-- A `disconnect` that goes on waits again, or closes the connection. -/
theorem closing_acquired {s : Sys} (hr : ∀ lock, s.lock.Grants "" lock .acquired → s.running = [])
    {lock : Lock} {awaits : Acquiring} (hg : s.lock.Grants "" lock awaits)
    (hb : Behind (s.acquired .disconnect lock awaits)) :
    (s.acquired .disconnect lock awaits).closing := by
  unfold Sys.acquired at hb ⊢
  split_ifs at hb ⊢ with ha
  · exfalso
    subst ha
    have hnil : (s.withLock lock).running = [] := hr lock hg
    obtain ⟨hc, r, hr, -⟩ := hb
    have hconn := (run_gateway (s.withLock lock) .disconnect).2.1
    rw [hconn] at hc
    obtain ⟨n, hn⟩ := Option.isSome_iff_exists.1 hc
    unfold Sys.run at hr
    have hg' : (s.withLock lock).gateway.granted .disconnect =
        (s.withLock lock).gateway.stopConsuming n
          ((s.withLock lock).gateway.queueConsumers.map (·.1)) := by
      unfold granted
      simp only [hn]
    rw [hg'] at hr
    unfold stopConsuming at hr
    split_ifs at hr
    · simp [hn, hnil, due, Call.due] at hr
    · simp [hnil, due, Call.due] at hr
  · exact ⟨(.disconnect, awaits), by simp [Sys.wait], rfl⟩

/-- What waits for the lock when a call goes on waits after it. -/
theorem waiting_acquired (s : Sys) (request : Request) (lock : Lock) (awaits : Acquiring) :
    s.waiting ⊆ (s.acquired request lock awaits).waiting := by
  unfold Sys.acquired
  split_ifs
  · rw [(run_gateway (s.withLock lock) request).2.2.2.1]
    exact fun _ hw => hw
  · exact List.subset_append_left _ _

theorem Retries.acquired {s : Sys}
    (h : s.gateway.reconnectTimeout = true ∨ s.gateway.desiredState = .disconnected ∨ s.closing)
    (request : Request) (lock : Lock) (awaits : Acquiring) :
    (s.acquired request lock awaits).gateway.reconnectTimeout = true
      ∨ (s.acquired request lock awaits).gateway.desiredState = .disconnected
      ∨ (s.acquired request lock awaits).closing := by
  rw [desiredState_acquired]
  rcases h with h | h | ⟨w, hw, hd⟩
  · left
    unfold Sys.acquired
    split_ifs
    · exact (run_gateway (s.withLock lock) request).2.2.1 h
    · exact h
  · exact .inr (.inl h)
  · exact .inr (.inr ⟨w, waiting_acquired s request lock awaits hw, hd⟩)

/-- The call that is woken is not a `disconnect`: those that wait do so still. -/
theorem closing_resumed {s : Sys} (h : s.closing) {request : Request} {awaits : Acquiring}
    (hf : s.waiting.find? (s.lock.woken ·.2) = some (request, awaits))
    (hr : request ≠ .disconnect) : s.resumed.closing := by
  obtain ⟨w, hw, hd⟩ := h
  obtain ⟨pre, post, hsplit, he, -, -⟩ := find?_eraseP hf
  refine ⟨w, ?_, hd⟩
  show w ∈ s.waiting.eraseP _
  rw [he]
  rw [hsplit] at hw
  rcases List.mem_append.1 hw with hw | hw
  · exact List.mem_append_left _ hw
  · rcases List.mem_cons.1 hw with rfl | hw
    · exact absurd hd hr
    · exact List.mem_append_right _ hw

theorem fails_iff {a : Action} : a.fails = true ↔ ∃ i, a = .reply i .failed := by
  cases a with
  | reply i reply => cases reply <;> simp [Action.fails]
  | _ => simp [Action.fails]

theorem reply_step {s s' : Sys} {i : ℕ} {reply : Reply} (h : step s (.reply i reply) = some s') :
    ∃ call t result, s.running[i]? = some call ∧ Settles s call reply t result
      ∧ s' = t.settle i call.request result := by
  unfold step at h
  simp only at h
  split_ifs at h
  obtain ⟨call, hi, h⟩ := Option.bind_eq_some_iff.1 h
  obtain ⟨t, result, hs, rfl⟩ := reply_settles h
  exact ⟨call, t, result, hi, hs, rfl⟩

/-- A restore that fails sets the timer, if the gateway is to be connected. -/
theorem retries_failed {s t : Sys} {call : Call} {result : RabbitMqGateway × Option Await}
    (hs : Settles s call .failed t result) (hr : call.awaits.restores = true) :
    result.1.reconnectTimeout = true ∨ result.1.desiredState = .disconnected := by
  have hfailed : s.gateway.connectFailed.1.reconnectTimeout = true
      ∨ s.gateway.connectFailed.1.desiredState = .disconnected := by
    cases hd : s.gateway.desiredState with
    | connected => exact .inl (connectFailed_timer hd)
    | disconnected => exact .inr ((scheduleReconnect_keeps s.gateway).desiredState.trans hd)
  cases hs with
  | refuse ha => exact hfailed
  | restoreFail ha => exact hfailed
  | subscribeFail ha =>
    rw [ha] at hr
    cases hr
  | closeFail ha =>
    rw [ha] at hr
    cases hr

theorem retries_step {s s' : Sys} {a : Action} (h : Consistent True s) (hr : Retries s)
    (hp : Proper s a) (hf : SucceedsUnlessRestoring s a) (hre : Retried s a)
    (hst : step s a = some s') : Retries s' := by
  intro hb
  rcases behind_step h hp hf hst hb with hold | ⟨hfail, -, c, hc, hres⟩
  · have hkept := hr hold
    cases step_cases hst with
    | @request _ request ha =>
      cases hd : request.desiredState with
      | disconnected =>
        refine .inr (.inl ?_)
        rw [Sys.request, desiredState_acquired]
        exact hd
      | connected =>
        obtain ⟨w, hw, hdw⟩ := hre (by simp [Action.clears, ha, hd]) hold
        exact .inr (.inr ⟨w, waiting_acquired (s.desire request) _ _ _ hw, hdw⟩)
    | invalid ha => exact hkept
    | unsubscribe key =>
      obtain ⟨_, _, _, he⟩ := unsubscribe_eq s key
      rw [he]
      exact hkept
    | @wake request awaits lock awaits' hw hl =>
      by_cases hd : request = .disconnect
      · subst hd
        refine .inr (.inr (closing_acquired (fun lock hg => ?_) (Lock.resume_spec hl) hb))
        by_contra hne
        exact hg.free rfl (h.leased.held.2 hne)
      · refine Retries.acquired (s := s.resumed) ?_ _ _ _
        exact hkept.imp_right fun h => h.imp_right fun h => closing_resumed h hw hd
    | @reply i reply call t result hq hi hs =>
      have hsame : (t.settle i call.request result).gateway.reconnectTimeout
            = result.1.reconnectTimeout
          ∧ (t.settle i call.request result).gateway.desiredState = result.1.desiredState
          ∧ (t.settle i call.request result).gateway.connection = result.1.connection
          ∧ (t.settle i call.request result).waiting = t.waiting := by
        obtain ⟨g, _ | awaits⟩ := result <;> exact ⟨rfl, rfl, rfl, rfl⟩
      obtain ⟨ht, hd, hconn, hw⟩ := hsame
      obtain ⟨htimer, hwait⟩ := hs.timer (hconn ▸ hb.1)
      rw [ht, hd, hs.desiredState]
      refine hkept.imp htimer fun h => h.imp_right ?_
      rintro ⟨w, hm, hdw⟩
      exact ⟨w, by rw [hw, hwait]; exact hm, hdw⟩
    | cancelled hq => exact hkept
    | timer hq =>
      have hsome : s.clearReconnectTimer.gateway.connection.isSome = true := hold.1
      have heq : s.clearReconnectTimer.reconnect = s.clearReconnectTimer := by
        unfold Sys.reconnect
        rw [if_pos (by simp [hsome])]
      rw [heq]
      exact .inr (.inr (hre rfl hold))
    | lost hq hc =>
      have hsome := hb.1
      rw [closed_connection] at hsome
      cases hsome
  · obtain ⟨i, rfl⟩ := fails_iff.1 hfail
    obtain ⟨call, t, result, hi, hs, rfl⟩ := reply_step hst
    obtain ⟨rfl, hrun⟩ := h.leased.running_eq hi
    rw [hrun] at hc
    obtain rfl := List.mem_singleton.1 hc
    obtain ⟨g, _ | awaits⟩ := result <;> exact (retries_failed hs hres).imp_right .inl

/-- In every run in which only operations of a restore fail while the connection is up, subscriptions
are subscribed to and taken out properly, and the timer is not cleared while a restore that failed
is not made good: an idle gateway that is to be connected, with no timer pending, is connected and
has established every subscription. -/
theorem restore_retried {l : List Action} {s : Sys} (hrun : machine.run {} l = some s)
    (hl : machine.Along
      (fun s a => (SucceedsUnlessRestoring s a ∧ Proper s a) ∧ Retried s a) {} l)
    (hi : s.Idle) (ht : s.gateway.reconnectTimeout = false)
    (hd : s.gateway.desiredState = .connected) :
    s.gateway.connection.isSome = true
      ∧ ∀ r ∈ s.gateway.subscriptions, s.gateway.Established s.bound r := by
  have hreach := (Machine.ReachIf.init (M := machine) rfl).run hl hrun
  have hinv : Consistent True s ∧ Connects s ∧ Retries s := by
    refine hreach.invariant (P := fun s => Consistent True s ∧ Connects s ∧ Retries s)
      (fun s (h0 : s = {}) => ?_) fun s a s' ⟨hc, hconn, hr⟩ ⟨⟨hf, hp⟩, hre⟩ hst => ?_
    · subst h0
      refine ⟨consistent_init.mono fun _ => trivial, fun hd => (by cases hd), fun hb => ?_⟩
      cases hb.1
    · exact ⟨(consistent_step hc hp hf hst).mono fun _ => trivial,
        connects_step hconn hc.leased hst, retries_step hc hr hp hf hre hst⟩
  obtain ⟨hcons, hconnects, hretries⟩ := hinv
  have hconn := hconnects.connected hi ht hd
  refine ⟨hconn, fun r hr => ?_⟩
  obtain ⟨hw, hrunning, -⟩ := hi
  by_contra hne
  have hb : Behind s := ⟨hconn, r, by rw [hrunning]; exact hr, hne⟩
  rcases hretries hb with h | h | ⟨w, hm, -⟩
  · rw [ht] at h
    cases h
  · rw [hd] at h
    cases h
  · rw [hw] at hm
    cases hm

/-- The restore fails, and the connection is lost before the timer fires. -/
theorem restore_retried_lost :
    let a : Subscription :=
      { exchange := "e", queueName := some "a", deadLetterQueue := some false, handler := 1 }
    ∃ s, machine.run {} ([.subscribe a] ++ List.replicate 6 (.reply 0 (.done "")) ++
        [.lost, .reply 0 (.done ""), .reply 0 .failed, .lost] ++
        List.replicate 6 (.reply 0 (.done ""))) = some s
      ∧ s.gateway.connection.isSome = true
      ∧ ∀ r ∈ s.gateway.subscriptions, s.gateway.Established s.bound r :=
  ⟨_, rfl, restore_retried (l := [.subscribe
      { exchange := "e", queueName := some "a", deadLetterQueue := some false, handler := 1 }] ++
    List.replicate 6 (.reply 0 (.done "")) ++
    [.lost, .reply 0 (.done ""), .reply 0 .failed, .lost] ++
    List.replicate 6 (.reply 0 (.done ""))) rfl (by decide) ⟨rfl, rfl, rfl⟩ rfl rfl⟩

/-- The restore fails, and the timer fires while the connection is up. -/
theorem restore_given_up :
    let a : Subscription :=
      { exchange := "e", queueName := some "a", deadLetterQueue := some false, handler := 1 }
    let l : List Action := [.subscribe a] ++ List.replicate 6 (.reply 0 (.done "")) ++
      [.lost, .reply 0 (.done ""), .reply 0 .failed, .timer]
    ∃ s, machine.run {} l = some s ∧ machine.Along SucceedsUnlessRestoring {} l ∧ s.Idle
      ∧ s.gateway.reconnectTimeout = false ∧ s.gateway.desiredState = .connected
      ∧ ∃ r ∈ s.gateway.subscriptions, s.gateway.hasConsumer "a" = false
        ∧ r.binding "a" ∉ s.bound :=
  ⟨_, rfl, by decide, ⟨rfl, rfl, rfl⟩, rfl, rfl, by decide⟩

end RabbitMqGateway

end NodeCqrs
