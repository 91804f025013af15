import NodeCqrs.Proofs.LockTurns
import NodeCqrs.Proofs.RabbitMqGateway

/-!
# A gateway that is to be connected gets connected

As long as the gateway is to be connected and is not, the reconnect timer is pending, or a call that
will connect waits for the lock or for the connection (`Connects`).
-/

namespace NodeCqrs

namespace RabbitMqGateway

def Connects (s : Sys) : Prop :=
  s.gateway.desiredState = .connected → s.gateway.connection = none →
    s.gateway.reconnectTimeout = true
      ∨ (∃ w ∈ s.waiting, w.1.desiredState = .connected)
      ∨ ∃ c ∈ s.running, c.awaits = .connectionFactory

theorem granted_connects {g : RabbitMqGateway} {request : Request}
    (hr : request.desiredState = .connected) (hc : g.connection = none) :
    g.granted request = (g, some .connectionFactory) := by
  cases request with
  | connect => simp [granted, hc]
  | subscribe s => simp [granted, hc]
  | disconnect => cases hr

theorem run_gateway (s : Sys) (request : Request) :
    (s.run request).gateway.desiredState = s.gateway.desiredState
      ∧ (s.run request).gateway.connection = s.gateway.connection
      ∧ (s.gateway.reconnectTimeout = true → (s.run request).gateway.reconnectTimeout = true)
      ∧ (s.run request).waiting = s.waiting ∧ ∀ c ∈ s.running, c ∈ (s.run request).running := by
  have hk := granted_keeps s.gateway request
  unfold Sys.run
  split
  · rename_i g op h
    rw [h] at hk
    exact ⟨hk.desiredState, hk.connection, hk.reconnectTimeout, rfl,
      fun c hc => List.mem_append_left _ hc⟩
  · rename_i g h
    rw [h] at hk
    exact ⟨hk.desiredState, hk.connection, hk.reconnectTimeout, rfl, fun c hc => hc⟩

theorem Connects.acquired {s : Sys} (h : Connects s) (request : Request) (lock : Lock)
    (awaits : Acquiring) : Connects (s.acquired request lock awaits) := by
  unfold Sys.acquired
  split_ifs with ha
  · obtain ⟨hd, hc, ht, hw, hr⟩ := run_gateway (s.withLock lock) request
    intro hd' hc'
    rcases h (hd.symm.trans hd') (hc.symm.trans hc') with h | ⟨w, hm, h⟩ | ⟨c, hm, h⟩
    · exact .inl (ht h)
    · exact .inr (.inl ⟨w, by rw [hw]; exact hm, h⟩)
    · exact .inr (.inr ⟨c, hr c hm, h⟩)
  · intro hd hc
    rcases h hd hc with h | ⟨w, hm, h⟩ | h
    · exact .inl h
    · exact .inr (.inl ⟨w, List.mem_append_left _ hm, h⟩)
    · exact .inr (.inr h)

/-- A call that will connect waits, or goes on to connect. -/
theorem connects_acquired {s : Sys} {request : Request} (hr : request.desiredState = .connected)
    (lock : Lock) (awaits : Acquiring) : Connects (s.acquired request lock awaits) := by
  unfold Sys.acquired
  split_ifs with ha
  · intro _ hc
    obtain ⟨-, hc', -⟩ := run_gateway (s.withLock lock) request
    have hg := granted_connects hr (hc'.symm.trans hc)
    refine .inr (.inr ⟨⟨request, .connectionFactory⟩, ?_, rfl⟩)
    simp [Sys.run, hg]
  · exact fun _ _ => .inr (.inl ⟨(request, awaits), by simp [Sys.wait], hr⟩)

theorem connects_request (s : Sys) (request : Request) : Connects (s.request request) := by
  cases hr : request.desiredState with
  | connected => exact connects_acquired hr _ _
  | disconnected =>
    refine Connects.acquired (fun hd => ?_) _ _ _
    have hd' : request.desiredState = .connected := hd
    rw [hr] at hd'
    cases hd'

theorem connects_reconnect (s : Sys) : Connects s.reconnect := by
  unfold Sys.reconnect
  split_ifs with h
  · intro hd hc
    simp [hd, hc] at h
  · exact connects_request s .connect

theorem connects_closed (s : Sys) : Connects s.onConnectionClosed := by
  unfold Sys.onConnectionClosed
  split_ifs with h
  · exact connects_reconnect _
  · exact fun hd => absurd hd h

/-- The call that is settled did not await the connection, or the gateway has it now, or has given
up for the time being. -/
theorem Connects.settle {s : Sys} (h : Connects s) {call : Call} (hr : s.running = [call])
    {result : RabbitMqGateway × Option Await} (hk : Keeps s.gateway result.1)
    (hc : call.awaits = .connectionFactory → result.1.desiredState = .connected →
      result.1.connection = none → result.1.reconnectTimeout = true) :
    Connects (s.settle 0 call.request result) := by
  have hs : ∀ t : Sys, t.gateway.desiredState = result.1.desiredState →
      t.gateway.connection = result.1.connection →
      t.gateway.reconnectTimeout = result.1.reconnectTimeout → t.waiting = s.waiting →
      Connects t := by
    intro t hd' hc' ht hw hd hn
    rw [hd'] at hd
    rw [hc'] at hn
    rcases h (hk.desiredState.symm.trans hd) (hk.connection.symm.trans hn) with h | h | ⟨c, hm, h⟩
    · exact .inl (ht.trans (hk.reconnectTimeout h))
    · exact .inr (.inl (hw ▸ h))
    · obtain rfl : c = call := by simpa [hr] using hm
      exact .inl (ht.trans (hc h hd hn))
  obtain ⟨g, op⟩ := result
  cases op <;> exact hs _ rfl rfl rfl rfl

theorem connectFailed_timer {g : RabbitMqGateway} (hd : g.desiredState = .connected) :
    g.connectFailed.1.reconnectTimeout = true := by
  simp [connectFailed, scheduleReconnect, hd]

theorem Connects.settles {s t : Sys} {call : Call} {reply : Reply}
    {result : RabbitMqGateway × Option Await} (h : Connects s) (hl : Leased s)
    (hr : s.running = [call]) (hs : Settles s call reply t result) :
    Connects (t.settle 0 call.request result) := by
  cases hs with
  | connect name ha =>
    have hk := restore_keeps s.connected.gateway call.request 0
    refine Connects.settle (s := s.connected) (fun _ hc => ?_) hr hk fun _ _ hc => ?_
    · cases hc
    · rw [hk.connection] at hc
      cases hc
  | refuse ha =>
    have hk := scheduleReconnect_keeps s.gateway
    exact h.settle hr hk fun _ hd _ => connectFailed_timer (hk.desiredState.symm.trans hd)
  | @restore turn subscription channel op name ha hc ht =>
    obtain ⟨bound, hb⟩ := bind_eq s subscription op
    rw [hb]
    refine Connects.settle (s := { s with bound }) h hr
      ((advance_keeps _ _ _ _ _).comp (restored_keeps _ _ _ _ _)) fun ha' => ?_
    rw [ha] at ha'
    cases ha'
  | restoreFail ha =>
    exact h.settle hr (scheduleReconnect_keeps s.gateway) fun ha' => by rw [ha] at ha'; cases ha'
  | @subscribe subscription channel op name ha hreq hc ht =>
    obtain ⟨bound, hb⟩ := bind_eq s subscription op
    rw [hb]
    refine Connects.settle (s := { s with bound }) h hr ?_ fun ha' => by rw [ha] at ha'; cases ha'
    rw [subscribed_fst]
    exact advance_keeps _ _ _ _ _
  | subscribeFail ha => exact h.settle hr (.refl _) fun ha' => by rw [ha] at ha'; cases ha'
  | cancel queue ok ha =>
    refine h.settle hr ?_ fun ha' => by rw [ha] at ha'; cases ha'
    rw [stopConsuming_fst]
    split_ifs
    · exact ⟨rfl, rfl, rfl, id⟩
    · exact .refl _
  | close name ha hc =>
    obtain ⟨hr', hnone⟩ := running_closed hl hr
    refine (connects_closed s).settle hr' ?_ fun ha' => by rw [ha] at ha'; cases ha'
    rw [hnone]
    exact .refl _
  | closeFail ha => exact h.settle hr (.refl _) fun ha' => by rw [ha] at ha'; cases ha'

theorem connects_step {s s' : Sys} {a : Action} (h : Connects s) (hl : Leased s)
    (hst : step s a = some s') : Connects s' := by
  cases step_cases hst with
  | request ha => exact connects_request s _
  | invalid ha => exact h
  | unsubscribe key =>
    obtain ⟨_, _, _, he⟩ := unsubscribe_eq s key
    exact he ▸ h
  | @wake request awaits lock awaits' hf hl' =>
    cases hr : request.desiredState with
    | connected => exact connects_acquired hr _ _
    | disconnected =>
      refine Connects.acquired (fun hd hc => ?_) _ _ _
      obtain ⟨pre, post, hw, he, -, -⟩ := find?_eraseP hf
      rcases h hd hc with h | ⟨w, hm, h⟩ | h
      · exact .inl h
      · refine .inr (.inl ⟨w, ?_, h⟩)
        show w ∈ s.waiting.eraseP _
        rw [he]
        rw [hw] at hm
        rcases List.mem_append.1 hm with hm | hm
        · exact List.mem_append_left _ hm
        · rcases List.mem_cons.1 hm with rfl | hm
          · rw [hr] at h
            cases h
          · exact List.mem_append_right _ hm
      · exact .inr (.inr h)
  | reply hq hi hs =>
    obtain ⟨rfl, hr⟩ := hl.running_eq hi
    exact h.settles hl hr hs
  | cancelled hq => exact h
  | timer hq => exact connects_reconnect _
  | lost hq hc => exact connects_closed s

/-- A gateway that is to be connected, with nothing left to go on, is connected. -/
theorem Connects.connected {s : Sys} (h : Connects s) (hi : s.Idle)
    (ht : s.gateway.reconnectTimeout = false) (hd : s.gateway.desiredState = .connected) :
    s.gateway.connection.isSome = true := by
  obtain ⟨hw, hr, -⟩ := hi
  rcases hc : s.gateway.connection with _ | n
  · rcases h hd hc with h | ⟨w, hm, -⟩ | ⟨c, hm, -⟩
    · rw [ht] at h
      cases h
    · rw [hw] at hm
      cases hm
    · rw [hr] at hm
      cases hm
  · rfl

/-! ## The connection over a step -/

/-- A call that is to connect has no connection. -/
def Connecting (s : Sys) : Prop :=
  ∀ c ∈ s.running, c.awaits = .connectionFactory → s.gateway.connection = none

theorem afterConnect_awaits (g : RabbitMqGateway) (request : Request) :
    (g.afterConnect request).2 ≠ some .connectionFactory := by
  cases request with
  | connect => simp [afterConnect]
  | subscribe s =>
    simp only [afterConnect, subscribeConnected]
    rcases (g.startSubscribe { s with }).2 with _ | ⟨channel, op⟩ <;> simp
  | disconnect => simp [afterConnect]

theorem restore_awaits (g : RabbitMqGateway) (request : Request) (i : ℕ) :
    (g.restore request i).2 ≠ some .connectionFactory := by
  unfold restore
  split_ifs
  · split
    · exact afterConnect_awaits g request
    · split <;> simp [connectFailed]
  · exact afterConnect_awaits g request

theorem stopConsuming_awaits (g : RabbitMqGateway) (connection : ℕ) (queues : List String) :
    (g.stopConsuming connection queues).2 ≠ some .connectionFactory := by
  unfold stopConsuming
  split_ifs
  · rcases g.connection with _ | c <;> simp
  · simp

/-- Only a call that got the lease awaits the connection. -/
theorem Settles.awaits {s t : Sys} {call : Call} {reply : Reply}
    {result : RabbitMqGateway × Option Await} (hs : Settles s call reply t result) :
    result.2 ≠ some .connectionFactory := by
  cases hs with
  | connect name ha => exact restore_awaits _ _ _
  | refuse ha => simp [connectFailed]
  | @restore turn subscription channel op name ha hc ht =>
    generalize s.gateway.advance subscription channel name op = x
    obtain ⟨g, outcome⟩ := x
    cases outcome with
    | awaits op => simp [restored]
    | returned => exact restore_awaits g _ _
    | threw => simp [restored, connectFailed]
  | restoreFail ha => simp [connectFailed]
  | @subscribe subscription channel op name ha hr hc ht =>
    generalize s.gateway.advance subscription channel name op = x
    obtain ⟨g, outcome⟩ := x
    cases outcome <;> simp [subscribed]
  | subscribeFail ha => simp
  | cancel queue ok ha => exact stopConsuming_awaits _ _ _
  | close name ha hc => simp
  | closeFail ha => simp

/-- The connection stays, is lost, or is the first one. -/
def Holds (s s' : Sys) : Prop :=
  ∀ c, s.gateway.connection = some c →
    s'.gateway.connection = some c ∨ s'.gateway.connection = none

theorem granted_connecting {g : RabbitMqGateway} {request : Request}
    (h : (g.granted request).2 = some .connectionFactory) : g.connection = none := by
  by_contra hc
  have hs := Option.isSome_iff_ne_none.2 hc
  cases request with
  | connect => simp [granted, hs] at h
  | subscribe s =>
    simp only [granted, hs, if_true] at h
    exact afterConnect_awaits g (.subscribe s) h
  | disconnect =>
    rcases hg : g.connection with _ | c
    · exact hc hg
    · simp only [granted, hg] at h
      exact stopConsuming_awaits g c _ h

theorem Connecting.acquired {s : Sys} (h : Connecting s) (request : Request) (lock : Lock)
    (awaits : Acquiring) : Connecting (s.acquired request lock awaits)
      ∧ (s.acquired request lock awaits).gateway.connection = s.gateway.connection := by
  unfold Sys.acquired
  split_ifs
  · obtain ⟨-, hc, -⟩ := run_gateway (s.withLock lock) request
    refine ⟨fun c hm ha => ?_, hc⟩
    rw [hc]
    unfold Sys.run at hm
    split at hm
    · rename_i g op hg
      rcases List.mem_append.1 hm with hm | hm
      · exact h c hm ha
      · rw [List.mem_singleton.1 hm] at ha
        exact granted_connecting (g := (s.withLock lock).gateway) (by rw [hg]; exact congrArg some ha)
    · exact h c hm ha
  · exact ⟨h, rfl⟩

theorem Connecting.request {s : Sys} (h : Connecting s) (request : Request) :
    Connecting (s.request request)
      ∧ (s.request request).gateway.connection = s.gateway.connection :=
  Connecting.acquired (s := s.desire request) h request _ _

theorem Connecting.reconnect {s : Sys} (h : Connecting s) :
    Connecting s.reconnect ∧ s.reconnect.gateway.connection = s.gateway.connection := by
  unfold Sys.reconnect
  split_ifs
  · exact ⟨h, rfl⟩
  · exact h.request .connect

theorem connecting_closed (s : Sys) :
    Connecting s.onConnectionClosed ∧ s.onConnectionClosed.gateway.connection = none := by
  have hc : Connecting s.cleanup := fun _ _ _ => rfl
  unfold Sys.onConnectionClosed
  split_ifs
  · exact hc.reconnect
  · exact ⟨hc, rfl⟩

/-- The connection of a call that is settled is the result's, and it awaits no other. -/
theorem connecting_settle {t : Sys} {request : Request} {result : RabbitMqGateway × Option Await}
    {call : Call} (hr : t.running = [call]) (hw : result.2 ≠ some .connectionFactory) :
    Connecting (t.settle 0 request result)
      ∧ (t.settle 0 request result).gateway.connection = result.1.connection := by
  obtain ⟨g, op⟩ := result
  cases op with
  | some op =>
    refine ⟨fun c hm ha => ?_, rfl⟩
    have hm : c = ⟨request, op⟩ := by simpa [Sys.settle, hr] using hm
    exact absurd (congrArg some (by rw [hm] at ha; exact ha)) hw
  | none =>
    refine ⟨fun c hm => ?_, rfl⟩
    simp [Sys.settle, hr] at hm

theorem Settles.holds {s t : Sys} {call : Call} {reply : Reply}
    {result : RabbitMqGateway × Option Await} (h : Connecting s) (hl : Leased s)
    (hr : s.running = [call]) (hs : Settles s call reply t result) {c : ℕ}
    (hc : s.gateway.connection = some c) :
    result.1.connection = some c ∨ result.1.connection = none := by
  cases hs with
  | connect name ha =>
    have hn := h call (by simp [hr]) ha
    rw [hn] at hc
    cases hc
  | refuse ha => exact .inl ((scheduleReconnect_keeps _).connection.trans hc)
  | restore name ha _ _ =>
    exact .inl (((advance_keeps _ _ _ _ _).comp (restored_keeps _ _ _ _ _)).connection.trans hc)
  | restoreFail ha => exact .inl ((scheduleReconnect_keeps _).connection.trans hc)
  | subscribe name ha hreq _ _ =>
    rw [subscribed_fst]
    exact .inl ((advance_keeps _ _ _ _ _).connection.trans hc)
  | subscribeFail ha => exact .inl hc
  | cancel queue ok ha =>
    rw [stopConsuming_fst]
    split_ifs
    · exact .inl hc
    · exact .inl hc
  | close name ha _ =>
    obtain ⟨-, hnone⟩ := running_closed hl hr
    refine .inr ?_
    rw [hnone]
    exact hnone
  | closeFail ha => exact .inl hc

theorem connecting_step {s s' : Sys} {a : Action} (h : Connecting s) (hl : Leased s)
    (hst : step s a = some s') : Connecting s' ∧ Holds s s' := by
  cases step_cases hst with
  | request ha => exact (h.request _).imp_right fun hc _ hs => .inl (hc.trans hs)
  | invalid ha => exact ⟨h, fun _ hs => .inl hs⟩
  | unsubscribe key =>
    obtain ⟨_, _, _, he⟩ := unsubscribe_eq s key
    exact he ▸ ⟨h, fun _ hs => .inl hs⟩
  | @wake request awaits lock awaits' hf hl' =>
    exact (Connecting.acquired (s := s.resumed) h request lock awaits').imp_right
      fun hc _ hs => .inl (hc.trans hs)
  | reply hq hi hs =>
    obtain ⟨rfl, hr⟩ := hl.running_eq hi
    obtain ⟨-, htr, -⟩ := hs.leased hl hr
    refine (connecting_settle htr hs.awaits).imp_right fun hc c hconn => ?_
    rw [hc]
    exact hs.holds h hl hr hconn
  | cancelled hq => exact ⟨h, fun _ hs => .inl hs⟩
  | timer hq =>
    exact (Connecting.reconnect (s := s.clearReconnectTimer) h).imp_right
      fun hc _ hs => .inl (hc.trans hs)
  | lost hq hc => exact (connecting_closed s).imp_right fun hc _ _ => .inr hc

end RabbitMqGateway

end NodeCqrs
