import NodeCqrs.Proofs.RabbitMqReconnect
import NodeCqrs.RabbitMq.Publish

/-!
# Asserting the exchange

An exchange is asserted by a call that creates the channel, and a call that finds it there goes by
the guard. So what is published on a connection is asserted on it as long as the calls that go by
are to exchanges that have been asserted on it, be it by `publish` or by `subscribe` (`asserts`).
-/

namespace NodeCqrs

namespace RabbitMqPublish

variable {s s' : Sys}

/-- What is published on a connection has been asserted on it. -/
def Asserted (issued : List Issued) : Prop :=
  ∀ pre exchange connection post, issued = pre ++ .publish exchange connection :: post →
    .assertExchange exchange connection ∈ pre

/-- The connection a channel is being created on. -/
def Awaits.creates : Awaits → Option ℕ
  | .createConfirmChannel c => some c
  | _ => none

/-- A call that finds the channel there is to an exchange that is asserted on its connection. As a
call creates the channel, those that are past the guard already, from a connection that is lost, are
to its exchange, or to one that is asserted. -/
def GoesBy (s : Sys) : Action → Prop
  | .publish exchange => exchange ≠ "" → ∀ connection ∈ s.pubChannel,
    .assertExchange exchange connection ∈ s.issued
  | .done i => ∀ call ∈ s.calls[i]?, ∀ connection ∈ call.awaits.creates, ∀ other ∈ s.calls,
    other.awaits = .appId →
      other.exchange = call.exchange ∨ .assertExchange other.exchange connection ∈ s.issued
  | .gateway _ => True
  | .failed _ => True

instance : DecidablePred (GoesBy s)
  | .publish exchange => by unfold GoesBy; infer_instance
  | .done i => by unfold GoesBy; infer_instance
  | .gateway _ => inferInstanceAs (Decidable True)
  | .failed _ => inferInstanceAs (Decidable True)

/-- The exchange of a call that is past the guard is asserted, on the connection that it awaits or
that the channel is on. -/
def Covered (issued : List Issued) (pubChannel : Option ℕ) (call : Call) : Prop :=
  match call.awaits with
  | .assertExchange connection => .assertExchange call.exchange connection ∈ issued
  | .appId => ∀ connection ∈ pubChannel, .assertExchange call.exchange connection ∈ issued
  | _ => True

structure Inv (s : Sys) : Prop where
  leased : RabbitMqGateway.Leased s.gateway
  connecting : RabbitMqGateway.Connecting s.gateway
  channel : ∀ connection ∈ s.pubChannel, s.connection = some connection
  covered : ∀ call ∈ s.calls, Covered s.issued s.pubChannel call
  asserted : Asserted s.issued

/-! ## What is issued -/

theorem Asserted.concat {l : List Issued} (h : Asserted l) {issued : Issued}
    (hi : ∀ exchange connection, issued = .publish exchange connection →
      .assertExchange exchange connection ∈ l) : Asserted (l ++ [issued]) := by
  intro pre exchange connection post he
  rcases List.eq_nil_or_concat post with rfl | ⟨post, last, rfl⟩
  · obtain ⟨rfl, hlast⟩ := List.append_inj' he rfl
    exact hi exchange connection (List.singleton_inj.1 hlast)
  · have he' : l ++ [issued] = (pre ++ .publish exchange connection :: post) ++ [last] := by
      simpa using he
    exact h pre exchange connection post (List.append_inj' he' rfl).1

/-- What the gateway issues is no message. -/
theorem Asserted.append {l : List Issued} (h : Asserted l) : ∀ {l' : List Issued},
    (∀ exchange connection, .publish exchange connection ∉ l') → Asserted (l ++ l') := by
  intro l'
  induction l' generalizing l with
  | nil => simpa using h
  | cons issued l' ih =>
    intro hl
    rw [List.append_cons]
    refine ih (h.concat fun exchange connection he => ?_) fun exchange connection hm =>
      hl exchange connection (List.mem_cons_of_mem _ hm)
    exact absurd (he ▸ List.mem_cons_self ..) (hl exchange connection)

theorem Covered.mono {issued issued' : List Issued} {pubChannel pubChannel' : Option ℕ}
    {call : Call} (h : Covered issued pubChannel call) (hi : issued ⊆ issued')
    (hc : ∀ connection ∈ pubChannel', connection ∈ pubChannel) :
    Covered issued' pubChannel' call := by
  unfold Covered at h ⊢
  split at h
  · exact hi h
  · exact fun connection hm => hi (h connection (hc connection hm))
  · trivial

theorem publish_notMem_assertions (gateway : RabbitMqGateway.Sys) (exchange : String)
    (connection : ℕ) : .publish exchange connection ∉ assertions gateway := by
  intro h
  obtain ⟨call, -, hcall⟩ := List.mem_filterMap.1 h
  unfold assertion at hcall
  split at hcall
  · cases hcall
  · cases hcall
  · cases hcall

/-! ## Steps -/

theorem Inv.withGateway (h : Inv s) {gateway : RabbitMqGateway.Sys}
    (hl : RabbitMqGateway.Leased gateway) (hc : RabbitMqGateway.Connecting gateway)
    (hh : RabbitMqGateway.Holds s.gateway gateway) : Inv (s.withGateway gateway) := by
  have hpub : ∀ connection ∈ (s.withGateway gateway).pubChannel,
      connection ∈ s.pubChannel ∧ gateway.gateway.connection.isSome = true := by
    intro connection hm
    simp only [Sys.withGateway] at hm
    split_ifs at hm with hs
    · exact ⟨hm, hs⟩
    · cases hm
  refine ⟨hl, hc, fun connection hm => ?_, fun call hcall => ?_, ?_⟩
  · obtain ⟨hm, hs⟩ := hpub connection hm
    rcases hh connection (h.channel connection hm) with hsame | hnone
    · exact hsame
    · rw [hnone] at hs
      cases hs
  · exact (h.covered call hcall).mono (List.subset_append_left _ _) fun connection hm =>
      (hpub connection hm).1
  · exact h.asserted.append fun exchange connection hm =>
      publish_notMem_assertions gateway exchange connection (List.mem_filter.1 hm).1

theorem Inv.calls (h : Inv s) {calls : List Call}
    (hc : ∀ call ∈ calls, Covered s.issued s.pubChannel call) : Inv { s with calls } :=
  ⟨h.leased, h.connecting, h.channel, hc, h.asserted⟩

theorem Inv.over (h : Inv s) (i : ℕ) : Inv (s.over i) :=
  h.calls fun call hc => h.covered call (List.mem_of_mem_eraseIdx hc)

theorem Inv.await (h : Inv s) (i : ℕ) {call : Call} {awaits : Awaits}
    (hc : Covered s.issued s.pubChannel { call with awaits }) : Inv (s.await i call awaits) := by
  refine h.calls fun c hm => ?_
  rcases List.mem_or_eq_of_mem_set hm with hm | rfl
  · exact h.covered c hm
  · exact hc

theorem Inv.issue (h : Inv s) {issued : Issued} (hi : ∀ exchange connection,
    issued = .publish exchange connection → .assertExchange exchange connection ∈ s.issued) :
    Inv (s.issue issued) :=
  ⟨h.leased, h.connecting, h.channel, fun call hc =>
    (h.covered call hc).mono (List.subset_append_left _ _) fun _ hm => hm, h.asserted.concat hi⟩

/-- The channel is new, and all that are past the guard may go by. -/
theorem Inv.create (h : Inv s) (call : Call) {connection : ℕ}
    (hconn : s.connection = some connection)
    (hg : ∀ other ∈ s.calls, other.awaits = .appId →
      other.exchange = call.exchange ∨ .assertExchange other.exchange connection ∈ s.issued) :
    Inv ({ s with pubChannel := some connection }.issue
      (.assertExchange call.exchange connection)) := by
  refine ⟨h.leased, h.connecting, ?_, fun other hm => ?_, h.asserted.concat (by simp)⟩
  · rintro c hc
    obtain rfl := Option.some.inj hc
    exact hconn
  · have ho := h.covered other hm
    have hg := hg other hm
    unfold Covered at ho ⊢
    split at ho
    · exact List.mem_append_left _ ho
    · rename_i ha
      rintro c hc
      obtain rfl := Option.some.inj hc
      rcases hg ha with he | hi
      · rw [he]
        exact List.mem_append_right _ (List.mem_singleton_self _)
      · exact List.mem_append_left _ hi
    · trivial

theorem Inv.resume (h : Inv s) {i : ℕ} {call : Call} (hi : s.calls[i]? = some call)
    (hg : GoesBy s (.done i)) (hst : s.resume i call = some s') : Inv s' := by
  have hcov := h.covered call (List.mem_of_getElem? hi)
  unfold Sys.resume at hst
  split at hst
  · obtain ⟨connection, -, rfl⟩ := Option.map_eq_some_iff.1 hst
    exact h.await i trivial
  · rename_i connection ha
    split_ifs at hst with hconn
    obtain rfl := Option.some.inj hst
    have hnew := h.create call hconn (hg call hi connection (by rw [ha]; rfl))
    exact hnew.await i (List.mem_append_right _ (List.mem_singleton_self _))
  · rename_i connection ha
    split_ifs at hst with hconn
    obtain rfl := Option.some.inj hst
    refine h.await i fun c hc => ?_
    obtain rfl : c = connection := Option.some.inj ((h.channel c hc).symm.trans hconn)
    simpa [Covered, ha] using hcov
  · rename_i ha
    split at hst
    · obtain rfl := Option.some.inj hst
      exact h.over i
    · rename_i connection hc
      obtain rfl := Option.some.inj hst
      refine (h.issue fun exchange connection' he => ?_).over i
      cases he
      have hall : ∀ c ∈ s.pubChannel, .assertExchange call.exchange c ∈ s.issued := by
        simpa [Covered, ha] using hcov
      exact hall connection hc

theorem Inv.assertConnection (h : Inv s) : Inv s.assertConnection := by
  unfold Sys.assertConnection
  split_ifs
  · exact h
  · obtain ⟨hc, hsame⟩ := h.connecting.request .connect
    exact h.withGateway (RabbitMqGateway.leased_request h.leased _) hc
      fun _ hs => .inl (hsame.trans hs)

theorem Inv.publish (h : Inv s) {exchange : String} (hg : GoesBy s (.publish exchange)) :
    Inv (s.publish exchange) := by
  have hconcat : ∀ {t : Sys} {call : Call}, Inv t → Covered t.issued t.pubChannel call →
      Inv { t with calls := t.calls ++ [call] } := by
    intro t call ht hcall
    refine ht.calls fun c hm => ?_
    rcases List.mem_append.1 hm with hm | hm
    · exact ht.covered c hm
    · rw [List.mem_singleton.1 hm]
      exact hcall
  unfold Sys.publish
  split_ifs with hne
  · exact h
  · exact hconcat h fun connection hm => hg hne connection hm
  · have hsame : s.assertConnection.calls = s.calls := by
      unfold Sys.assertConnection
      split_ifs <;> rfl
    rw [← hsame]
    exact hconcat h.assertConnection trivial

theorem inv_step {a : Action} (h : Inv s) (ha : GoesBy s a) (hst : step s a = some s') :
    Inv s' := by
  cases a with
  | gateway action =>
    obtain ⟨gateway, hgw, rfl⟩ := Option.map_eq_some_iff.1 hst
    obtain ⟨hc, hh⟩ := RabbitMqGateway.connecting_step h.connecting h.leased hgw
    exact h.withGateway (RabbitMqGateway.leased_step h.leased hgw) hc hh
  | publish exchange =>
    obtain rfl := Option.some.inj hst
    exact h.publish ha
  | done i =>
    obtain ⟨call, hi, hst⟩ := Option.bind_eq_some_iff.1 hst
    exact h.resume hi ha hst
  | failed i =>
    obtain ⟨call, -, rfl⟩ := Option.map_eq_some_iff.1 hst
    exact h.over i

theorem inv_init : Inv {} := by
  refine ⟨RabbitMqGateway.leased_init, by simp [RabbitMqGateway.Connecting], by simp, by simp, ?_⟩
  intro pre exchange connection post he
  simp at he

/-- What is published in a run has been asserted on the connection before, if every call that goes
by the guard is to an exchange that is asserted there. -/
theorem asserts {s : Sys} (h : machine.ReachIf GoesBy s) : Asserted s.issued :=
  (h.invariant (P := Inv) (by rintro _ rfl; exact inv_init)
    fun _ _ _ hi ha hst => inv_step hi ha hst).asserted

section Runs

/-- A queue of exchange `s` is subscribed to, and two calls publish to `a` and `s`. The connection is
lost while a third one, to `a` again, waits for the app id. It goes by on the new connection, once a
fourth call has asserted `a` there. -/
def exchanges : List Action :=
  [.gateway (.subscribe { exchange := "s", handler := 0 }), .gateway (.reply 0 (.done "")),
    .gateway (.reply 0 (.done "")), .publish "a", .done 0, .done 0, .done 0, .publish "s", .done 1,
    .done 0, .publish "a", .gateway .lost, .gateway (.reply 0 .failed), .gateway .wake,
    .gateway (.reply 0 (.done "")), .publish "a", .done 1, .done 1, .done 0, .done 0, .done 0]

theorem asserts_exchanges : ∃ s, machine.run {} exchanges = some s
    ∧ s.issued = [.assertExchange "s" 0, .assertExchange "a" 0, .publish "s" 0, .publish "a" 0,
      .assertExchange "a" 1, .publish "a" 1, .publish "a" 1]
    ∧ Asserted s.issued := by
  have hrun : machine.run {} exchanges = some _ := rfl
  exact ⟨_, hrun, rfl, asserts ((Machine.ReachIf.init rfl).run (by decide) hrun)⟩

/-- The second call goes by to an exchange that no one has asserted. -/
theorem not_asserted : ¬ ∀ l s, machine.run {} l = some s → Asserted s.issued := by
  intro hall
  have h := hall [.publish "a", .gateway (.reply 0 (.done "")), .done 0, .done 0, .done 0, .done 0,
    .publish "b", .done 0] _ rfl
  exact absurd (h [.assertExchange "a" 0, .publish "a" 0] "b" 0 [] rfl) (by decide)

end Runs

end RabbitMqPublish

end NodeCqrs
