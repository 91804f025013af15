import NodeCqrs.Proofs.RabbitMqReconnect

/-!
# The last request wins

The desired state is the one the last call asked for, and the calls are done in the order in which
the lock is granted to them (`Sys.order`). Where no call is made while one that is called on has yet
to go on, that is the order they were made in (`InOrder`), so the last call is also the last done.
-/

namespace NodeCqrs

namespace RabbitMqGateway

/-- The requests in flight, in the order the lock is granted to them. -/
def Sys.order (s : Sys) : List Request := s.running.map (·.request) ++ s.lock.inTurn s.waiting

/-- The connection that a `disconnect` is about to close. -/
def Await.closes : Await → Option ℕ
  | .stopConsuming connection _ => some connection
  | .close connection => some connection
  | _ => none

/-- What the call awaits is for what it requests. -/
def Call.Fits (call : Call) (connection : Option ℕ) : Prop :=
  match call.awaits.closes with
  | none => call.request.desiredState = .connected
  | some n => call.request = .disconnect ∧ ∀ m, connection = some m → m = n

theorem Call.Fits.desiredState {call : Call} {connection : Option ℕ} (h : call.Fits connection)
    (ha : call.awaits.closes = none) : call.request.desiredState = .connected := by
  unfold Call.Fits at h
  rwa [ha] at h

theorem Call.Fits.request_ne {call : Call} {connection : Option ℕ} (h : call.Fits connection)
    (ha : call.awaits.closes = none) : call.request ≠ .disconnect := by
  intro hreq
  have hd := h.desiredState ha
  rw [hreq] at hd
  cases hd

/-- A call closes connections only to disconnect, and only the one there is. -/
theorem Call.Fits.disconnect {call : Call} {connection : Option ℕ} (h : call.Fits connection)
    {n : ℕ} (ha : call.awaits.closes = some n) :
    call.request = .disconnect ∧ ∀ m, connection = some m → m = n := by
  unfold Call.Fits at h
  rwa [ha] at h

/-- Nothing is in flight and there is no connection, or the last request is to disconnect. -/
def Ends (order : List Request) (connection : Option ℕ) : Prop :=
  order = [] ∧ connection = none ∨ order.getLast? = some .disconnect

theorem Ends.of_ne_nil {order : List Request} {c c' : Option ℕ} (h : Ends order c)
    (hne : order ≠ []) : Ends order c' :=
  .inr (h.resolve_left fun h => hne h.1)

/-- The first request is over. -/
theorem Ends.tail {request : Request} {rest : List Request} {c c' : Option ℕ}
    (h : Ends (request :: rest) c) (hc : request = .disconnect → c' = none) : Ends rest c' := by
  rcases h with ⟨h, -⟩ | h
  · cases h
  · rcases rest with _ | ⟨x, rest⟩
    · exact .inl ⟨rfl, hc (Option.some.inj h)⟩
    · exact .inr (List.getLast?_cons_cons ▸ h)

theorem Ends.cleaned {order : List Request} {c : Option ℕ} (h : Ends order c) : Ends order none :=
  h.imp_left fun h => ⟨h.1, rfl⟩

theorem ends_append (order : List Request) (c : Option ℕ) :
    Ends (order ++ [.disconnect]) c :=
  .inr List.getLast?_concat

structure InOrder (s : Sys) : Prop where
  queued : s.lock.Queued s.waiting
  fits : ∀ call ∈ s.running, call.Fits s.gateway.connection
  ends : s.gateway.desiredState = .disconnected → Ends s.order s.gateway.connection

/-! ## What a call awaits -/

theorem closes_subscribeConnected {g : RabbitMqGateway} {s : Subscription} {op : Await}
    (h : (g.subscribeConnected s).2 = some op) : op.closes = none := by
  obtain ⟨⟨channel, op'⟩, -, rfl⟩ := Option.map_eq_some_iff.1 h
  rfl

theorem closes_afterConnect {g : RabbitMqGateway} {request : Request} {op : Await}
    (h : (g.afterConnect request).2 = some op) : op.closes = none := by
  cases request with
  | connect => cases h
  | subscribe s => exact closes_subscribeConnected h
  | disconnect => cases h

theorem closes_restore {g : RabbitMqGateway} {request : Request} {i : ℕ} {op : Await}
    (h : (g.restore request i).2 = some op) : op.closes = none := by
  unfold restore at h
  split_ifs at h
  · split at h
    · exact closes_afterConnect h
    · split at h
      · obtain rfl := Option.some.inj h
        rfl
      · cases h
  · exact closes_afterConnect h

theorem closes_restored {request : Request} {i : ℕ} {s : Subscription} {channel : ℕ}
    {x : RabbitMqGateway × Outcome Subscribing} {op : Await}
    (h : (restored request i s channel x).2 = some op) : op.closes = none := by
  obtain ⟨g, outcome⟩ := x
  cases outcome with
  | awaits op' =>
    obtain rfl := Option.some.inj h
    rfl
  | returned => exact closes_restore h
  | threw => cases h

theorem closes_subscribed {channel : ℕ} {x : RabbitMqGateway × Outcome Subscribing} {op : Await}
    (h : (subscribed channel x).2 = some op) : op.closes = none := by
  obtain ⟨g, outcome⟩ := x
  cases outcome with
  | awaits op' =>
    obtain rfl := Option.some.inj h
    rfl
  | returned => cases h
  | threw => cases h

theorem fits_of_closes {request : Request} {op : Await} {connection : Option ℕ}
    (hop : op.closes = none) (hr : request.desiredState = .connected) :
    Call.Fits { request, awaits := op } connection := by
  unfold Call.Fits
  rw [show (Call.mk request op).awaits.closes = none from hop]
  exact hr

theorem fits_stopConsuming {g : RabbitMqGateway} {connection : ℕ} {queues : List String}
    {op : Await} (hc : ∀ m, g.connection = some m → m = connection)
    (h : (g.stopConsuming connection queues).2 = some op) :
    Call.Fits { request := .disconnect, awaits := op } g.connection := by
  unfold stopConsuming at h
  split_ifs at h
  · obtain ⟨n, hn, rfl⟩ := Option.map_eq_some_iff.1 h
    exact ⟨rfl, fun m hm => Option.some.inj (hm.symm.trans hn)⟩
  · obtain rfl := Option.some.inj h
    exact ⟨rfl, hc⟩

theorem stopConsuming_over {g : RabbitMqGateway} {connection : ℕ} {queues : List String}
    (h : (g.stopConsuming connection queues).2 = none) : g.connection = none := by
  unfold stopConsuming at h
  split_ifs at h
  exact Option.map_eq_none_iff.1 h

theorem fits_granted {g : RabbitMqGateway} {request : Request} {op : Await}
    (h : (g.granted request).2 = some op) : Call.Fits { request, awaits := op } g.connection := by
  cases request with
  | connect =>
    unfold granted at h
    dsimp only at h
    split_ifs at h
    obtain rfl := Option.some.inj h
    exact fits_of_closes rfl rfl
  | subscribe s =>
    unfold granted at h
    dsimp only at h
    split_ifs at h
    · exact fits_of_closes (closes_subscribeConnected h) rfl
    · obtain rfl := Option.some.inj h
      exact fits_of_closes rfl rfl
  | disconnect =>
    unfold granted at h
    dsimp only at h
    split at h
    · cases h
    · rename_i c hc
      exact fits_stopConsuming (fun m hm => Option.some.inj (hm.symm.trans hc)) h

theorem granted_over {g : RabbitMqGateway} (h : (g.granted .disconnect).2 = none) :
    g.connection = none := by
  unfold granted at h
  dsimp only at h
  split at h
  · assumption
  · exact stopConsuming_over h

/-! ## Steps of the calls -/

theorem InOrder.run {s : Sys} (hf : s.lock.Fresh)
    (hw : ∀ w ∈ s.waiting, s.lock.called w.2 = true) (hr : s.running = []) {request : Request}
    (he : s.gateway.desiredState = .disconnected →
      Ends (request :: s.waiting.map (·.1)) s.gateway.connection) : InOrder (s.run request) := by
  have hk := granted_keeps s.gateway request
  have hfit : ∀ op, (s.gateway.granted request).2 = some op →
      Call.Fits { request, awaits := op } s.gateway.connection := fun _ h => fits_granted h
  have hover : request = .disconnect → (s.gateway.granted request).2 = none →
      s.gateway.connection = none := by
    rintro rfl h
    exact granted_over h
  unfold Sys.run
  rcases hg : s.gateway.granted request with ⟨g, _ | op⟩ <;> rw [hg] at hk hfit hover <;> dsimp only
  · have hlock : g.stateChangeLock = s.lock := hk.stateChangeLock
    obtain ⟨hq, ht⟩ := Lock.Queued.of_called (l := s.lock.release "") hf.release
      fun w hm => Lock.called_mono (fun d hd => List.mem_append_right _ hd) (hw w hm)
    have hl' : Sys.lock { s with gateway := g.release } = s.lock.release "" :=
      congrArg (·.release "") hlock
    refine ⟨hl' ▸ hq, fun call hm => ?_, fun hd => ?_⟩
    · simp [hr] at hm
    · have ho : Sys.order { s with gateway := g.release } = s.waiting.map (·.1) := by
        unfold Sys.order
        rw [hl', ht]
        simp [hr]
      rw [ho]
      refine (he (hk.desiredState.symm.trans hd)).tail fun hreq => ?_
      exact hk.connection.trans (hover hreq rfl)
  · have hlock : g.stateChangeLock = s.lock := hk.stateChangeLock
    obtain ⟨hq, ht⟩ := Lock.Queued.of_called hf hw
    have hl' : Sys.lock { s with
        gateway := g, running := s.running ++ [{ request, awaits := op }] } = s.lock := hlock
    refine ⟨hl' ▸ hq, fun call hm => ?_, fun hd => ?_⟩
    · obtain rfl : call = { request, awaits := op } := by simpa [hr] using hm
      show Call.Fits _ g.connection
      rw [hk.connection]
      exact hfit op rfl
    · have ho : Sys.order { s with
          gateway := g, running := s.running ++ [{ request, awaits := op }] }
          = request :: s.waiting.map (·.1) := by
        unfold Sys.order
        rw [hl', ht]
        simp [hr]
      rw [ho]
      exact (he (hk.desiredState.symm.trans hd)).of_ne_nil (List.cons_ne_nil _ _)

theorem running_of_granted {s : Sys} (hl : Leased s) {lock : Lock}
    (hg : s.lock.Grants "" lock .acquired) : s.running = [] := by
  by_contra hr
  exact hg.free rfl (hl.held.2 hr)

/-- No call is called on and has yet to go on. -/
def Sys.Calm (s : Sys) : Prop := s.waiting.filter (s.lock.called ·.2) = []

theorem InOrder.request {s : Sys} (h : InOrder s) (hl : Leased s) (hc : s.Calm)
    (request : Request) : InOrder (s.request request) := by
  have hgrants : s.lock.Grants "" (s.lock.acquire "").1 (s.lock.acquire "").2 :=
    Lock.acquire_spec rfl
  -- after a request to disconnect, it is the last one
  have hends : ∀ order c, (s.desire request).gateway.desiredState = .disconnected →
      Ends (order ++ [request]) c := by
    intro order c hd
    cases request with
    | connect => cases hd
    | subscribe s => cases hd
    | disconnect => exact ends_append order c
  have hacq : s.lock.acquire "" = ((s.lock.acquire "").1, (s.lock.acquire "").2) := rfl
  unfold Sys.request Sys.acquired
  rcases h.queued.acquire hc request hacq with ⟨ha, hq, ht, -⟩ | ⟨ha, hw, hf⟩
  · rw [if_neg ha]
    refine ⟨hq, h.fits, fun hd => ?_⟩
    have ho : Sys.order (((s.desire request).withLock (s.lock.acquire "").1).wait request
        (s.lock.acquire "").2) = s.order ++ [request] := by
      show s.running.map (·.request) ++ _ = (s.running.map (·.request) ++ _) ++ [request]
      rw [List.append_assoc, ← ht]
      rfl
    rw [ho]
    exact hends _ _ hd
  · rw [if_pos ha]
    rw [ha] at hgrants
    have hw' : ((s.desire request).withLock (s.lock.acquire "").1).waiting = [] := hw
    have hr := running_of_granted hl hgrants
    refine InOrder.run (s := (s.desire request).withLock (s.lock.acquire "").1) hf
      (fun w hm => ?_) hr fun hd => ?_
    · rw [hw'] at hm
      cases hm
    · rw [hw']
      exact hends [] _ hd

theorem InOrder.reconnect {s : Sys} (h : InOrder s) (hl : Leased s) (hc : s.Calm) :
    InOrder s.reconnect := by
  unfold Sys.reconnect
  split_ifs
  · exact h
  · exact h.request hl hc .connect

theorem InOrder.closed {s : Sys} (h : InOrder s) (hl : Leased s) (hc : s.Calm) :
    InOrder s.onConnectionClosed := by
  have hclean : InOrder s.cleanup := by
    refine ⟨h.queued, fun call hm => ?_, fun hd => (h.ends hd).cleaned⟩
    have hfit := h.fits call hm
    unfold Call.Fits at hfit ⊢
    split
    · rename_i hop
      rw [hop] at hfit
      exact hfit
    · rename_i n hop
      rw [hop] at hfit
      exact ⟨hfit.1, fun m hm => by cases hm⟩
  unfold Sys.onConnectionClosed
  split_ifs
  · exact hclean.reconnect ⟨hl.one, hl.held⟩ hc
  · exact hclean

theorem calm_closed {s : Sys} (h : InOrder s) (hl : Leased s) (hc : s.Calm) {call : Call}
    (hr : s.running = [call]) : s.onConnectionClosed.Calm := by
  unfold Sys.onConnectionClosed Sys.reconnect
  split_ifs
  · exact hc
  · have hne : s.cleanup.running ≠ [] := by
      show s.running ≠ []
      simp [hr]
    have hl' : Leased s.cleanup := ⟨hl.one, hl.held⟩
    rw [request_of_running hl' hne]
    have hacq : s.lock.acquire "" = ((s.lock.acquire "").1, (s.lock.acquire "").2) := rfl
    rcases h.queued.acquire hc .connect hacq with ⟨-, -, -, hc'⟩ | ⟨ha, -, -⟩
    · exact hc'
    · have hgrants : s.lock.Grants "" (s.lock.acquire "").1 (s.lock.acquire "").2 :=
        Lock.acquire_spec rfl
      rw [ha] at hgrants
      exact absurd (running_of_granted hl hgrants) hne
  · exact hc

/-- A call that has the lease waits again, or is over. -/
theorem InOrder.settle {s : Sys} (h : InOrder s) (hc : s.Calm) {call : Call}
    (hr : s.running = [call]) {result : RabbitMqGateway × Option Await}
    (hlock : result.1.stateChangeLock = s.lock)
    (hd : result.1.desiredState = s.gateway.desiredState)
    (hfit : ∀ op, result.2 = some op →
      Call.Fits { request := call.request, awaits := op } result.1.connection)
    (hend : result.2 = none → call.request = .disconnect → result.1.connection = none) :
    InOrder (s.settle 0 call.request result) := by
  have horder : s.order = call.request :: s.lock.inTurn s.waiting := by
    unfold Sys.order
    rw [hr]
    rfl
  obtain ⟨g, op⟩ := result
  cases op with
  | some op =>
    have hl' : Sys.lock (s.settle 0 call.request (g, some op)) = s.lock := hlock
    refine ⟨hl' ▸ h.queued, fun call' hm => ?_, fun hd' => ?_⟩
    · obtain rfl : call' = { request := call.request, awaits := op } := by
        simpa [Sys.settle, hr] using hm
      exact hfit op rfl
    · have ho : (s.settle 0 call.request (g, some op)).order = s.order := by
        rw [horder]
        unfold Sys.order
        rw [hl']
        simp [Sys.settle, hr]
      rw [ho]
      exact (h.ends (hd.symm.trans hd')).of_ne_nil (by simp [horder])
  | none =>
    have hl' : Sys.lock (s.settle 0 call.request (g, none)) = s.lock.release "" :=
      congrArg (·.release "") hlock
    obtain ⟨hq, ht⟩ := h.queued.release hc
    refine ⟨hl' ▸ hq, fun call' hm => ?_, fun hd' => ?_⟩
    · simp [Sys.settle, hr] at hm
    · have ho : (s.settle 0 call.request (g, none)).order = s.lock.inTurn s.waiting := by
        unfold Sys.order
        rw [hl']
        simp [Sys.settle, hr, ht]
      rw [ho]
      have he := h.ends (hd.symm.trans hd')
      rw [horder] at he
      exact he.tail (hend rfl)

/-- The call that closes a connection fails only after the connection is lost. -/
def Closes (s : Sys) (a : Action) : Prop :=
  ∀ i call n, a = .reply i .failed → s.running[i]? = some call → call.awaits = .close n →
    s.gateway.connection ≠ some n

theorem InOrder.settles {s t : Sys} {call : Call} {reply : Reply}
    {result : RabbitMqGateway × Option Await} (h : InOrder s) (hl : Leased s) (hc : s.Calm)
    (hr : s.running = [call]) (hclose : Closes s (.reply 0 reply))
    (hs : Settles s call reply t result) : InOrder (t.settle 0 call.request result) := by
  have hfit := h.fits call (by simp [hr])
  have hnot := hfit.request_ne
  have hnonempty : s.order ≠ [] := by simp [Sys.order, hr]
  cases hs with
  | connect name ha =>
    have hop : call.awaits.closes = none := by rw [ha]; rfl
    have hk := restore_keeps s.connected.gateway call.request 0
    have hs' : InOrder s.connected := by
      refine ⟨h.queued, fun call' hm => ?_, fun hd => (h.ends hd).of_ne_nil hnonempty⟩
      obtain rfl : call' = call := by simpa [Sys.connected, hr] using hm
      exact fits_of_closes hop (hfit.desiredState hop)
    exact hs'.settle hc hr hk.stateChangeLock hk.desiredState
      (fun op h => fits_of_closes (closes_restore h) (hfit.desiredState hop))
      fun _ hreq => absurd hreq (hnot hop)
  | refuse ha =>
    have hop : call.awaits.closes = none := by rw [ha]; rfl
    have hk := scheduleReconnect_keeps s.gateway
    exact h.settle hc hr hk.stateChangeLock hk.desiredState (fun op h => by cases h)
      fun _ hreq => absurd hreq (hnot hop)
  | @restore turn subscription channel op name ha hconn ht =>
    have hop : call.awaits.closes = none := by rw [ha]; rfl
    obtain ⟨bound, hb⟩ := bind_eq s subscription op
    have hk := (advance_keeps s.gateway subscription channel name op).comp
      (restored_keeps call.request turn subscription channel _)
    rw [hb]
    exact InOrder.settle (s := { s with bound }) ⟨h.queued, h.fits, h.ends⟩ hc hr
      hk.stateChangeLock hk.desiredState
      (fun op h => fits_of_closes (closes_restored h) (hfit.desiredState hop))
      fun _ hreq => absurd hreq (hnot hop)
  | restoreFail ha =>
    have hop : call.awaits.closes = none := by rw [ha]; rfl
    have hk := scheduleReconnect_keeps s.gateway
    exact h.settle hc hr hk.stateChangeLock hk.desiredState (fun op h => by cases h)
      fun _ hreq => absurd hreq (hnot hop)
  | @subscribe subscription channel op name ha hreq hconn ht =>
    have hop : call.awaits.closes = none := by rw [ha]; rfl
    obtain ⟨bound, hb⟩ := bind_eq s subscription op
    have hk := advance_keeps s.gateway subscription channel name op
    rw [hb]
    refine InOrder.settle (s := { s with bound }) ⟨h.queued, h.fits, h.ends⟩ hc hr ?_ ?_
      (fun op h => fits_of_closes (closes_subscribed h) (hfit.desiredState hop))
      fun _ hreq => absurd hreq (hnot hop)
    · rw [subscribed_fst]
      exact hk.stateChangeLock
    · rw [subscribed_fst]
      exact hk.desiredState
  | subscribeFail ha =>
    have hop : call.awaits.closes = none := by rw [ha]; rfl
    exact h.settle hc hr rfl rfl (fun op h => by cases h) fun _ hreq => absurd hreq (hnot hop)
  | @cancel connection queues queue ok ha =>
    obtain ⟨hreq, hconn⟩ := hfit.disconnect (n := connection) (by rw [ha]; rfl)
    have hg : ∀ g, (stopConsuming g connection (queues.erase queue)).1 = g :=
      fun g => stopConsuming_fst g _ _
    have hconn' : (if ok = true then s.gateway.deleteConsumer queue else s.gateway).connection
        = s.gateway.connection := by
      split_ifs <;> rfl
    refine h.settle hc hr ?_ ?_ (fun op hop => ?_) fun hover _ => ?_
    · rw [hg]
      split_ifs <;> rfl
    · rw [hg]
      split_ifs <;> rfl
    · rw [hg, hreq]
      exact fits_stopConsuming (by rwa [hconn']) hop
    · rw [hg]
      exact stopConsuming_over hover
  | close name ha hconn =>
    obtain ⟨hr', hnone⟩ := running_closed hl hr
    refine (h.closed hl hc).settle (calm_closed h hl hc hr) hr' ?_ ?_ (fun op h => by cases h)
      fun _ _ => ?_
    · split_ifs <;> rfl
    · split_ifs <;> rfl
    · split_ifs
      · rfl
      · exact hnone
  | @closeFail connection ha =>
    obtain ⟨-, hconn⟩ := hfit.disconnect (n := connection) (by rw [ha]; rfl)
    refine h.settle hc hr rfl rfl (fun op h => by cases h) fun _ _ => ?_
    have hlost := hclose 0 call connection rfl (by rw [hr]; rfl) ha
    rcases hm : s.gateway.connection with _ | m
    · rfl
    · exact absurd (hconn m hm ▸ hm) hlost

theorem calm_of_quiet {s : Sys} (hq : s.waiting.any (s.lock.woken ·.2) = false) : s.Calm := by
  refine List.filter_eq_nil_iff.2 fun w hm hc => ?_
  have hw := List.any_eq_false.1 hq w hm
  rcases ha : w.2 with d | d | _ <;> rw [ha] at hc hw
  · exact hw hc
  · cases hc
  · cases hc

/-- A call of `connect`, `subscribe` or `disconnect` is made when no earlier one that has been
called on has yet to go on. -/
def InTurn (s : Sys) (a : Action) : Prop := a.request.isSome = true → s.Calm

instance (s : Sys) (a : Action) : Decidable (InTurn s a) :=
  inferInstanceAs (Decidable (a.request.isSome = true → s.waiting.filter (s.lock.called ·.2) = []))

theorem inOrder_step {s s' : Sys} {a : Action} (h : InOrder s) (hl : Leased s) (hturn : InTurn s a)
    (hclose : Closes s a) (hst : step s a = some s') : InOrder s' := by
  cases step_cases hst with
  | request ha => exact h.request hl (hturn (by rw [ha]; rfl)) _
  | invalid ha => exact h
  | unsubscribe key =>
    obtain ⟨_, _, _, he⟩ := unsubscribe_eq s key
    exact he ▸ ⟨h.queued, h.fits, h.ends⟩
  | @wake request awaits lock awaits' hf hl' =>
    have hgrants := Lock.resume_spec hl'
    unfold Sys.acquired
    rcases h.queued.wake hf hl' with ⟨ha, hq, ht⟩ | ⟨rfl, hfresh, hw, ht⟩
    · rw [if_neg ha]
      refine ⟨hq, h.fits, fun hd => ?_⟩
      have ho : ((s.resumed.withLock lock).wait request awaits').order = s.order := by
        unfold Sys.order
        exact congrArg (s.running.map (·.request) ++ ·) ht
      rw [ho]
      exact h.ends hd
    · rw [if_pos rfl]
      have hr := running_of_granted hl hgrants
      refine InOrder.run (s := s.resumed.withLock lock) hfresh hw hr fun hd => ?_
      have he := h.ends hd
      unfold Sys.order at he
      rw [hr, ht] at he
      exact he
  | reply hq hi hs =>
    obtain ⟨rfl, hr⟩ := hl.running_eq hi
    exact h.settles hl (calm_of_quiet hq) hr hclose hs
  | cancelled hq => exact ⟨h.queued, h.fits, h.ends⟩
  | timer hq =>
    exact InOrder.reconnect (s := s.clearReconnectTimer) ⟨h.queued, h.fits, h.ends⟩
      ⟨hl.one, hl.held⟩ (calm_of_quiet hq)
  | lost hq hc => exact h.closed hl (calm_of_quiet hq)

theorem inOrder_init : InOrder {} := by
  refine ⟨⟨⟨rfl, ?_, ?_, ?_⟩, ?_, Nat.zero_le 1, fun _ => rfl, ?_⟩, ?_, fun _ => .inl ⟨rfl, rfl⟩⟩
  · exact fun d hd => by cases hd
  · exact fun d hd => by cases hd
  · exact fun d hd => by cases hd
  · exact fun w hm => by cases hm
  · exact fun w hm => by cases hm
  · exact fun call hm => by cases hm

/-! ## The desired state -/

theorem desiredState_acquired (s : Sys) (request : Request) (lock : Lock) (awaits : Acquiring) :
    (s.acquired request lock awaits).gateway.desiredState = s.gateway.desiredState := by
  unfold Sys.acquired
  split_ifs
  · exact (run_gateway (s.withLock lock) request).1
  · rfl

theorem desiredState_reconnect (s : Sys) :
    s.reconnect.gateway.desiredState = s.gateway.desiredState := by
  unfold Sys.reconnect
  split_ifs with h
  · rfl
  · refine (desiredState_acquired _ _ _ _).trans ?_
    have hd : s.gateway.desiredState = .connected := by
      by_contra hd
      simp [hd] at h
    exact hd.symm

theorem desiredState_closed (s : Sys) :
    s.onConnectionClosed.gateway.desiredState = s.gateway.desiredState := by
  unfold Sys.onConnectionClosed
  split_ifs
  · exact desiredState_reconnect s.cleanup
  · rfl

theorem Settles.desiredState {s t : Sys} {call : Call} {reply : Reply}
    {result : RabbitMqGateway × Option Await} (hs : Settles s call reply t result) :
    result.1.desiredState = s.gateway.desiredState := by
  cases hs with
  | connect name ha => exact (restore_keeps s.connected.gateway call.request 0).desiredState
  | refuse ha => exact (scheduleReconnect_keeps s.gateway).desiredState
  | restore name ha hc ht =>
    exact ((advance_keeps _ _ _ _ _).comp (restored_keeps _ _ _ _ _)).desiredState
  | restoreFail ha => exact (scheduleReconnect_keeps s.gateway).desiredState
  | subscribe name ha hr hc ht =>
    rw [subscribed_fst]
    exact (advance_keeps _ _ _ _ _).desiredState
  | subscribeFail ha => rfl
  | cancel queue ok ha =>
    rw [stopConsuming_fst]
    split_ifs <;> rfl
  | close name ha hc =>
    rw [← desiredState_closed s]
    split_ifs <;> rfl
  | closeFail ha => rfl

/-- A step leaves the state desired as the call it makes wants it, or as it is. -/
theorem desiredState_step {s s' : Sys} {a : Action} (hst : step s a = some s') :
    s'.gateway.desiredState = (a.request.map (·.desiredState)).getD s.gateway.desiredState := by
  cases step_cases hst with
  | request ha =>
    rw [ha]
    exact desiredState_acquired _ _ _ _
  | invalid ha =>
    rw [ha]
    rfl
  | unsubscribe key =>
    obtain ⟨_, _, _, he⟩ := unsubscribe_eq s key
    rw [he]
    rfl
  | wake hf hl => exact desiredState_acquired _ _ _ _
  | @reply i reply call t result hq hi hs =>
    refine Eq.trans ?_ hs.desiredState
    obtain ⟨g, op⟩ := result
    cases op <;> rfl
  | cancelled hq => rfl
  | timer hq => exact desiredState_reconnect s.clearReconnectTimer
  | lost hq hc => exact desiredState_closed s

/-- The latest call of `connect`, `subscribe` or `disconnect`. -/
def latest (l : List Action) : Option Request := (l.filterMap Action.request).getLast?

theorem desiredState_run : ∀ {l : List Action} {s s' : Sys}, machine.run s l = some s' →
    s'.gateway.desiredState = ((latest l).map (·.desiredState)).getD s.gateway.desiredState
  | [], s, s', h => by
    obtain rfl := Option.some.inj h
    rfl
  | a :: l, s, s', h => by
    obtain ⟨t, hst, h⟩ := Option.bind_eq_some_iff.1 h
    rw [desiredState_run h, desiredState_step hst]
    unfold latest
    rcases ha : a.request with _ | request
    · rw [List.filterMap_cons_none ha]
      rfl
    · rw [List.filterMap_cons_some ha, List.getLast?_cons]
      cases (l.filterMap Action.request).getLast? <;> rfl

/-- In every run in which no call is made while one that is called on has yet to go on: with nothing
left to go on, the gateway is connected if and only if the latest call was not to disconnect. -/
theorem last_request_wins {l : List Action} {s : Sys} (hrun : machine.run {} l = some s)
    (hl : machine.Along (fun s a => InTurn s a ∧ Closes s a) {} l) (hi : s.Idle)
    (ht : s.gateway.reconnectTimeout = false) {request : Request}
    (hlatest : latest l = some request) :
    s.gateway.connection.isSome = true ↔ request ≠ .disconnect := by
  have hreach := (Machine.ReachIf.init (M := machine) rfl).run hl hrun
  have hinv : Leased s ∧ Connects s ∧ InOrder s :=
    hreach.invariant (P := fun s => Leased s ∧ Connects s ∧ InOrder s)
      (fun s (h0 : s = {}) => h0 ▸ ⟨leased_init, fun hd => (by cases hd), inOrder_init⟩)
      fun s a s' ⟨hl, hc, ho⟩ ⟨hturn, hclose⟩ hst =>
        ⟨leased_step hl hst, connects_step hc hl hst, inOrder_step ho hl hturn hclose hst⟩
  obtain ⟨-, hconnects, horder⟩ := hinv
  have hd := desiredState_run hrun
  rw [hlatest] at hd
  constructor
  · rintro hc rfl
    obtain ⟨hw, hr, -⟩ := hi
    have hnil : s.order = [] := by
      unfold Sys.order
      rw [hr, hw]
      rfl
    rcases horder.ends hd with ⟨-, h⟩ | h
    · rw [h] at hc
      cases hc
    · rw [hnil] at h
      cases h
  · intro hne
    refine hconnects.connected hi ht (hd.trans ?_)
    cases request with
    | connect => rfl
    | subscribe s => rfl
    | disconnect => exact absurd rfl hne

/-- A `connect` that a `disconnect` waits for. -/
theorem last_request_wins_waiting :
    ∃ s, machine.run {} [.connect, .disconnect, .reply 0 (.done ""), .wake, .reply 0 (.done "")]
        = some s ∧ (s.gateway.connection.isSome = true ↔ Request.disconnect ≠ .disconnect) := by
  refine ⟨_, rfl, last_request_wins (l := [.connect, .disconnect, .reply 0 (.done ""), .wake,
    .reply 0 (.done "")]) rfl (Machine.Along.and (by decide) ?_) ⟨rfl, rfl, rfl⟩ rfl rfl⟩
  refine Machine.Along.of_forall fun a ha s i call n h => ?_
  subst h
  simp at ha

/-- Of three calls of `connect`, the third waits; `disconnect`, called once the first has returned,
overtakes it. -/
theorem connect_overtaken :
    let l : List Action := [.connect, .connect, .connect, .reply 0 (.done ""), .wake, .disconnect,
      .wake, .reply 0 (.done ""), .wake, .reply 0 (.done "")]
    ∃ s, machine.run {} l = some s ∧ s.Idle ∧ s.gateway.reconnectTimeout = false ∧
      latest l = some .disconnect ∧ s.gateway.connection.isSome = true :=
  ⟨_, rfl, ⟨rfl, rfl, rfl⟩, rfl, rfl, rfl⟩

end RabbitMqGateway

end NodeCqrs
