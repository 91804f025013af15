import Mathlib.Data.List.Nodup
import NodeCqrs.Proofs.RabbitMqReconnect
import NodeCqrs.Proofs.RabbitMqSubscriptions

/-!
# Subscriptions and consumers over runs

The records that a call in progress has done with are due (`Call.due`), and without one all are.
What is due is established, unless a restore failed while its connection is up (`Tracks`).
-/

namespace NodeCqrs

namespace RabbitMqGateway

/-- The subscription a call is establishing, and the operation it awaits for it. -/
def Call.establishing : Call → Option (Subscription × Subscribing)
  | ⟨_, .restore _ s _ op⟩ => some (s, op)
  | ⟨.subscribe s, .subscribe _ op⟩ => some (s, op)
  | _ => none

theorem Call.establishing_restore {call : Call} {i channel : ℕ} {s : Subscription}
    {op : Subscribing} (h : call.awaits = .restore i s channel op) :
    call.establishing = some (s, op) := by
  obtain ⟨request, awaits⟩ := call
  obtain rfl : awaits = .restore i s channel op := h
  rfl

/-- The records that the call has done with. -/
def Call.due (call : Call) (subscriptions : List EstablishedSubscription) :
    List EstablishedSubscription :=
  match call.awaits with
  | .restore i _ _ _ => (subscriptions.drop (subscriptions.length - (i + 1))).dropLast
  | .subscribe _ _ => subscriptions.dropLast
  | _ => []

/-- The records that are to be established as it is. -/
def due (call : Option Call) (subscriptions : List EstablishedSubscription) :
    List EstablishedSubscription :=
  match call with
  | none => subscriptions
  | some call => call.due subscriptions

/-- What holds between the steps of the call that has the lease. What is due is established on the
connection, or the gateway is `behind`. -/
structure Tracks (behind : Prop) (g : RabbitMqGateway) (bound : List Binding)
    (call : Option Call) : Prop where
  recorded : g.Recorded
  connecting : ∀ c ∈ call, c.awaits = .connectionFactory → g.connection = none
  settled : g.connection.isSome = true →
    behind ∨ ∀ r ∈ due call g.subscriptions, g.Established bound r
  flight : g.connection.isSome = true → ∀ c ∈ call, ∀ s op, c.establishing = some (s, op) →
    ∃ l r, g.subscriptions = l ++ [r] ∧ r.toSubscription = s ∧ g.Progress bound r op

theorem Tracks.alike {behind : Prop} {g g' : RabbitMqGateway} {bound : List Binding}
    {call : Option Call} (h : Alike g g') (ht : Tracks behind g bound call) :
    Tracks behind g' bound call := by
  refine ⟨ht.recorded.alike h, fun c hc ha => ?_, fun hconn => ?_, fun hconn c hc s op he => ?_⟩
  · rw [h.connection]
    exact ht.connecting c hc ha
  · rw [h.connection] at hconn
    rw [h.subscriptions]
    exact (ht.settled hconn).imp_right fun hd r hr => (hd r hr).grows (h.grows bound)
  · rw [h.connection] at hconn
    obtain ⟨l, r, hl, hr, hp⟩ := ht.flight hconn c hc s op he
    exact ⟨l, r, h.subscriptions.trans hl, hr, hp.congr h.exclusiveQueueName⟩

def Request.Valid : Request → Prop
  | .subscribe s => s.Valid
  | _ => True

instance : (request : Request) → Decidable request.Valid
  | .connect => inferInstanceAs (Decidable True)
  | .subscribe s => inferInstanceAs (Decidable s.Valid)
  | .disconnect => inferInstanceAs (Decidable True)

theorem Recorded.records {g : RabbitMqGateway} (h : g.Recorded)
    {l : List EstablishedSubscription} (hd : (l.map (·.key)).Nodup) (hsub : g.subscriptions ⊆ l)
    (hnew : ∀ r ∈ l, r ∈ g.subscriptions ∨ r.Valid ∧ r.queueGivenName = none) :
    ({ g with subscriptions := l } : RabbitMqGateway).Recorded := by
  refine ⟨hd, fun r hr => ?_, fun r hr queue hq => ?_, fun queue hc => ?_, h.reserved,
    h.exclusive⟩
  · rcases hnew r hr with hr | ⟨hv, -⟩
    · exact h.valid r hr
    · exact hv
  · rcases hnew r hr with hr | ⟨-, hn⟩
    · exact h.named r hr queue hq
    · rw [hn] at hq
      cases hq
  · obtain ⟨r, hr, hn⟩ := h.consumed queue hc
    exact ⟨r, hsub hr, hn⟩

section

variable {behind : Prop} {g : RabbitMqGateway} {bound : List Binding}

theorem tracks_none (h : g.Recorded)
    (hs : g.connection.isSome = true → behind ∨ ∀ r ∈ g.subscriptions, g.Established bound r) :
    Tracks behind g bound none :=
  ⟨h, fun c hc => (by cases hc), hs, fun _ c hc => (by cases hc)⟩

/-- A call that is not establishing anything. -/
theorem tracks_call (h : g.Recorded) {call : Call} (hd : call.due g.subscriptions = [])
    (he : call.establishing = none)
    (hf : call.awaits = .connectionFactory → g.connection = none) :
    Tracks behind g bound (some call) := by
  refine ⟨h, fun c hc ha => ?_, fun _ => .inr fun r hr => ?_, fun _ c hc s op h => ?_⟩
  · obtain rfl := Option.some.inj hc
    exact hf ha
  · rw [due, hd] at hr
    cases hr
  · obtain rfl := Option.some.inj hc
    rw [he] at h
    cases h

/-- A call that is establishing the last record. -/
theorem tracks_establishing (h : g.Recorded) {call : Call}
    {l : List EstablishedSubscription} {r : EstablishedSubscription} {s : Subscription}
    {op : Subscribing} (hl : g.subscriptions = l ++ [r]) (hr : r.toSubscription = s)
    (he : call.establishing = some (s, op)) (hf : call.awaits ≠ .connectionFactory)
    (hp : g.Progress bound r op)
    (hs : behind ∨ ∀ x ∈ call.due g.subscriptions, g.Established bound x) :
    Tracks behind g bound (some call) := by
  refine ⟨h, fun c hc ha => ?_, fun _ => hs, fun _ c hc s' op' he' => ?_⟩
  · obtain rfl := Option.some.inj hc
    exact absurd ha hf
  · obtain rfl := Option.some.inj hc
    rw [he] at he'
    obtain ⟨rfl, rfl⟩ := Prod.mk.inj (Option.some.inj he')
    exact ⟨l, r, hl, hr, hp⟩

theorem subscribeConnected_tracks (h : g.Recorded) (hc : g.connection.isSome = true)
    {s : Subscription} (hv : s.Valid)
    (hs : behind ∨ ∀ r ∈ g.subscriptions, g.Established bound r) :
    Tracks behind (g.subscribeConnected s).1 bound
      ((g.subscribeConnected s).2.map (Call.mk (.subscribe s))) := by
  unfold subscribeConnected
  rcases hf : g.findSubscription s.key with _ | r
  · have hne := findSubscription_eq_none.1 hf
    obtain ⟨channel, op, he, hp⟩ := startSubscribe_recorded (r := { s with }) hc hv hne bound
    rw [he]
    refine tracks_establishing (l := g.subscriptions) (r := { s with }) ?_ rfl rfl rfl
      nofun (hp.congr rfl) (hs.imp_right fun hs x hx => ?_)
    · refine h.records ?_ (List.subset_append_left _ _) fun r hr => ?_
      · rw [List.map_append, List.nodup_append]
        refine ⟨h.distinct, by simp, fun k hk k' hk' => ?_⟩
        obtain ⟨x, hx, rfl⟩ := List.mem_map.1 hk
        rw [List.mem_singleton.1 hk']
        exact hne x hx
      · rcases List.mem_append.1 hr with hr | hr
        · exact .inl hr
        · obtain rfl := List.mem_singleton.1 hr
          exact .inr ⟨hv, rfl⟩
    · have hx : x ∈ (g.subscriptions ++ [({ s with } : EstablishedSubscription)]).dropLast := hx
      rw [List.dropLast_concat] at hx
      exact (hs x hx).grows ⟨.inr rfl, fun _ hb => hb, fun _ hc => hc⟩
  · unfold startSubscribe
    rw [if_pos (by rw [hf]; rfl)]
    exact tracks_none h fun _ => hs

theorem afterConnect_tracks (h : g.Recorded) (hc : g.connection.isSome = true)
    {request : Request} (hv : request.Valid)
    (hs : behind ∨ ∀ r ∈ g.subscriptions, g.Established bound r) :
    Tracks behind (g.afterConnect request).1 bound
      ((g.afterConnect request).2.map (Call.mk request)) := by
  cases request with
  | connect => exact tracks_none h fun _ => hs
  | subscribe s => exact subscribeConnected_tracks h hc hv hs
  | disconnect => exact tracks_none h fun _ => hs

/-- The due records at the `i`-th turn of a restore, the last record being the one it is at. -/
theorem due_restore (l : List EstablishedSubscription) (r : EstablishedSubscription) (i : ℕ) :
    ((l ++ [r]).drop ((l ++ [r]).length - (i + 1))).dropLast = l.drop (l.length - i) := by
  have hle : l.length - i ≤ l.length := Nat.sub_le _ _
  rw [List.length_append, List.length_singleton, Nat.add_sub_add_right,
    List.drop_append_of_le_length hle, List.dropLast_concat]

/-- The loop goes on with `i` records established. -/
theorem restore_tracks (h : g.Recorded) (hc : g.connection.isSome = true) {request : Request}
    (hv : request.Valid) {i : ℕ}
    (hs : behind ∨ ∀ r ∈ g.subscriptions.drop (g.subscriptions.length - i),
      g.Established bound r) :
    Tracks behind (g.restore request i).1 bound
      ((g.restore request i).2.map (Call.mk request)) := by
  unfold restore
  split_ifs with hi
  · rcases hl : g.subscriptions with _ | ⟨s, rest⟩
    · rw [hl] at hi
      cases hi
    · have hd := h.distinct
      have hvs := h.valid s (by simp [hl])
      rw [hl, List.map_cons, List.nodup_cons] at hd
      have hne : ∀ x ∈ rest, x.key ≠ s.key := fun x hx heq =>
        hd.1 (heq ▸ List.mem_map_of_mem hx)
      obtain ⟨channel, op, he, hp⟩ :=
        startSubscribe_recorded (g := { g with subscriptions := rest }) hc hvs hne bound
      simp only [he]
      refine tracks_establishing (l := rest) (r := s) ?_ rfl rfl rfl nofun
        (hp.congr rfl) (hs.imp_right fun hs x hx => ?_)
      · refine h.records ?_ (fun r hr => ?_) fun r hr => .inl ?_
        · rw [List.map_append]
          exact (List.perm_append_singleton _ _).nodup_iff.2 (List.nodup_cons.2 hd)
        · rw [hl] at hr
          simpa [or_comm] using hr
        · rw [hl]
          simpa [or_comm] using hr
      · have hx : x ∈ ((rest ++ [s]).drop ((rest ++ [s]).length - (i + 1))).dropLast := hx
        rw [due_restore] at hx
        refine (hs x ?_).grows ⟨.inr rfl, fun _ hb => hb, fun _ hc => hc⟩
        have hle : i ≤ rest.length := by simpa [hl, Nat.lt_succ_iff] using hi
        rw [hl, List.length_cons, Nat.succ_sub hle]
        exact hx
  · rw [Nat.sub_eq_zero_of_le (not_lt.1 hi), List.drop_zero] at hs
    exact afterConnect_tracks h hc hv hs

/-- The restore goes on from where its `#subscribe` got to. -/
theorem restored_tracks {bound' : List Binding} {l : List EstablishedSubscription}
    {s : Subscription} {result : RabbitMqGateway × Outcome Subscribing}
    (h : Advanced g bound l s bound' result) (hc : result.1.connection.isSome = true)
    {request : Request} (hv : request.Valid) {i : ℕ}
    (hs : behind ∨ ∀ r ∈ l.drop (l.length - i), g.Established bound r) (channel : ℕ) :
    Tracks behind (restored request i s channel result).1 bound'
      ((restored request i s channel result).2.map (Call.mk request)) := by
  obtain ⟨g', outcome⟩ := result
  obtain ⟨hrec, hgrows, r, hl, hr, hat⟩ := h
  have hs' : behind ∨ ∀ x ∈ l.drop (l.length - i), g'.Established bound' x :=
    hs.imp_right fun hs x hx => (hs x hx).grows hgrows
  have hl : g'.subscriptions = l ++ [r] := hl
  cases outcome with
  | awaits op =>
    refine tracks_establishing hrec hl hr rfl nofun hat ?_
    show behind ∨ ∀ x ∈ (g'.subscriptions.drop (g'.subscriptions.length - (i + 1))).dropLast, _
    rw [hl, due_restore]
    exact hs'
  | returned =>
    refine restore_tracks hrec hc hv (hs'.imp_right fun hs x hx => ?_)
    have hle : l.length - i ≤ l.length := Nat.sub_le _ _
    rw [hl, List.length_append, List.length_singleton, Nat.add_sub_add_right,
      List.drop_append_of_le_length hle] at hx
    rcases List.mem_append.1 hx with hx | hx
    · exact hs x hx
    · exact List.mem_singleton.1 hx ▸ hat
  | threw => exact hat.elim

/-- `subscribe` goes on from where its `#subscribe` got to. -/
theorem subscribed_tracks {bound' : List Binding} {l : List EstablishedSubscription}
    {s : Subscription} {result : RabbitMqGateway × Outcome Subscribing}
    (h : Advanced g bound l s bound' result)
    (hs : behind ∨ ∀ r ∈ l, g.Established bound r) (channel : ℕ) :
    Tracks behind (subscribed channel result).1 bound'
      ((subscribed channel result).2.map (Call.mk (.subscribe s))) := by
  obtain ⟨g', outcome⟩ := result
  obtain ⟨hrec, hgrows, r, hl, hr, hat⟩ := h
  have hs' : behind ∨ ∀ x ∈ l, g'.Established bound' x :=
    hs.imp_right fun hs x hx => (hs x hx).grows hgrows
  have hl : g'.subscriptions = l ++ [r] := hl
  cases outcome with
  | awaits op =>
    refine tracks_establishing hrec hl hr rfl nofun hat ?_
    show behind ∨ ∀ x ∈ g'.subscriptions.dropLast, _
    rw [hl, List.dropLast_concat]
    exact hs'
  | returned =>
    refine tracks_none hrec fun _ => hs'.imp_right fun hs x hx => ?_
    have hx : x ∈ g'.subscriptions := hx
    rw [hl] at hx
    rcases List.mem_append.1 hx with hx | hx
    · exact hs x hx
    · exact List.mem_singleton.1 hx ▸ hat
  | threw => exact hat.elim

theorem stopConsuming_tracks (h : g.Recorded) (request : Request) (connection : ℕ)
    (queues : List String) :
    Tracks behind (g.stopConsuming connection queues).1 bound
      ((g.stopConsuming connection queues).2.map (Call.mk request)) := by
  have he : ∀ awaits, awaits = .stopConsuming connection queues ∨ (∃ n, awaits = .close n) →
      Tracks behind g bound (some ⟨request, awaits⟩) := by
    rintro awaits (rfl | ⟨n, rfl⟩)
    · exact tracks_call h rfl (by cases request <;> rfl) nofun
    · exact tracks_call h rfl (by cases request <;> rfl) nofun
  unfold stopConsuming
  split_ifs
  · rcases hc : g.connection with _ | n
    · refine tracks_none h fun hsome => ?_
      have hsome : g.connection.isSome = true := hsome
      rw [hc] at hsome
      cases hsome
    · exact he _ (.inr ⟨n, rfl⟩)
  · exact he _ (.inl rfl)

/-- A call got the lease, with everything established. -/
theorem granted_tracks (h : Tracks behind g bound none) {request : Request} (hv : request.Valid) :
    Tracks behind (g.granted request).1 bound
      ((g.granted request).2.map (Call.mk request)) := by
  have hfactory : ∀ r : Request, ¬ g.connection.isSome = true →
      Tracks behind g bound (some ⟨r, .connectionFactory⟩) := fun r hc =>
    tracks_call h.recorded rfl (by cases r <;> rfl) fun _ => by simpa using hc
  unfold granted
  cases request with
  | connect =>
    simp only
    split_ifs with hc
    · exact h
    · exact hfactory _ hc
  | subscribe s =>
    simp only
    split_ifs with hc
    · exact subscribeConnected_tracks h.recorded hc hv (h.settled hc)
    · exact hfactory _ hc
  | disconnect =>
    simp only
    split
    · exact h
    · exact stopConsuming_tracks h.recorded _ _ _

theorem cleanup_tracks (h : g.Recorded) (call : Option Call) :
    Tracks behind g.cleanup [] call := by
  refine ⟨⟨h.distinct, h.valid, h.named, fun queue hc => ?_, fun queue hc => ?_, nofun⟩,
    fun _ _ _ => rfl, nofun, nofun⟩
  · simp [hasConsumer, cleanup] at hc
  · simp [hasConsumer, cleanup] at hc

end

/-! ## `unsubscribe` -/

/-- The record that the call is at, and those it has gone through where others are left. -/
def Call.passed (call : Call) (subscriptions : List EstablishedSubscription) :
    List EstablishedSubscription :=
  match call.awaits with
  | .restore i _ _ _ =>
    if subscriptions.length ≤ i + 1 then subscriptions.getLast?.toList
    else subscriptions.drop (subscriptions.length - (i + 1))
  | .subscribe _ _ => subscriptions.getLast?.toList
  | _ => []

theorem names_ne {s : Subscription} {queue : String} (h : s.Names queue) : queue ≠ "" := by
  unfold Subscription.Names at h
  split at h
  · rename_i queueName ht
    rw [show queue = queueName from h]
    exact (ifTruthy_eq_some.1 ht).2
  · exact isSystemQueue_ne h

/-- `unsubscribe` of a record takes it out, with the consumers that are for no other record. -/
theorem unsubscribe_spec {s : Sys} (h : s.gateway.Recorded) {key : SubscriptionKey}
    {x : EstablishedSubscription} (hx : s.gateway.findSubscription key = some x) :
    (s.unsubscribe key).gateway.subscriptions = s.gateway.subscriptions.filter (·.key ≠ key)
      ∧ (s.unsubscribe key).gateway.exclusiveQueueName = s.gateway.exclusiveQueueName
      ∧ ∀ queue, (s.unsubscribe key).gateway.hasConsumer queue = true ↔
        s.gateway.hasConsumer queue = true ∧
          ∃ r ∈ s.gateway.subscriptions.filter (·.key ≠ key), r.queueGivenName = some queue := by
  have hmem := List.mem_of_find?_eq_some hx
  have hkey : x.key = key := by simpa using List.find?_some hx
  -- a consumer is for the record taken out or for another
  have hrest : ∀ queue, s.gateway.hasConsumer queue = true → x.queueGivenName ≠ some queue →
      ∃ r ∈ s.gateway.subscriptions.filter (·.key ≠ key), r.queueGivenName = some queue := by
    intro queue hc hne
    obtain ⟨r, hr, hn⟩ := h.consumed queue hc
    refine ⟨r, List.mem_filter.2 ⟨hr, decide_eq_true fun hk => hne ?_⟩, hn⟩
    rw [← List.inj_on_of_nodup_map h.distinct hr hmem (hk.trans hkey.symm)]
    exact hn
  unfold Sys.unsubscribe
  rw [hx]
  simp only
  split
  · rename_i ht
    refine ⟨rfl, rfl, fun queue => ⟨fun hc => ⟨hc, hrest queue hc fun hn => ?_⟩, And.left⟩⟩
    have hsome := ifTruthy_eq_some.2 ⟨hn, names_ne (h.named x hmem queue hn)⟩
    rw [ht] at hsome
    cases hsome
  · rename_i queue' ht
    have hgiven := (ifTruthy_eq_some.1 ht).1
    split_ifs with hused
    · refine ⟨rfl, rfl, fun queue => ⟨fun hc => ⟨hc, ?_⟩, And.left⟩⟩
      have hc : s.gateway.hasConsumer queue = true := hc
      by_cases hq : x.queueGivenName = some queue
      · obtain rfl : queue' = queue := Option.some.inj (hgiven.symm.trans hq)
        rcases Bool.or_eq_true_iff.1 hused with hused | hused
        · obtain ⟨r, hr, hn⟩ := List.any_eq_true.1 hused
          exact ⟨r, hr, of_decide_eq_true hn⟩
        · have hused : (!s.gateway.hasConsumer queue') = true := hused
          rw [hc] at hused
          cases hused
      · exact hrest queue hc hq
    · refine ⟨rfl, rfl, fun queue => ?_⟩
      simp only
      rw [hasConsumer_deleteConsumer]
      constructor
      · rintro ⟨hne, hc⟩
        refine ⟨hc, hrest queue hc fun hn => hne ?_⟩
        exact Option.some.inj (hn.symm.trans hgiven)
      · rintro ⟨hc, r, hr, hn⟩
        refine ⟨?_, hc⟩
        rintro rfl
        refine hused (Bool.or_eq_true_iff.2 (.inl (List.any_eq_true.2 ⟨r, hr, ?_⟩)))
        simpa using hn

theorem filter_key_concat {r : EstablishedSubscription} {key : SubscriptionKey}
    (h : r.key ≠ key) (l : List EstablishedSubscription) :
    (l ++ [r]).filter (·.key ≠ key) = l.filter (·.key ≠ key) ++ [r] := by
  rw [List.filter_append]
  congr 1
  exact List.filter_eq_self.2 fun x hx => decide_eq_true (List.mem_singleton.1 hx ▸ h)

/-- What is dropped before the last `i` records is still due. -/
theorem drop_filter_subset {α : Type*} {p : α → Bool} {l : List α} {i : ℕ}
    (h : i < l.length → ∀ x ∈ l.drop (l.length - i), p x = true) :
    (l.filter p).drop ((l.filter p).length - i) ⊆ l.drop (l.length - i) := by
  rcases Nat.lt_or_ge i l.length with hi | hi
  · have hsplit : l.filter p = (l.take (l.length - i)).filter p ++ l.drop (l.length - i) := by
      conv_lhs => rw [← List.take_append_drop (l.length - i) l, List.filter_append]
      rw [List.filter_eq_self.2 (h hi)]
    have hlen : (l.drop (l.length - i)).length = i := by
      rw [List.length_drop]
      omega
    rw [hsplit, List.length_append, hlen, Nat.add_sub_cancel, List.drop_left]
    exact fun _ hx => hx
  · rw [Nat.sub_eq_zero_of_le hi, List.drop_zero]
    exact fun x hx => List.mem_of_mem_filter (List.mem_of_mem_drop hx)

theorem passed_last {call : Call} {x : Subscription × Subscribing}
    (he : call.establishing = some x) (l : List EstablishedSubscription)
    (r : EstablishedSubscription) : r ∈ call.passed (l ++ [r]) := by
  obtain ⟨request, awaits⟩ := call
  cases awaits with
  | restore i s channel op =>
    unfold Call.passed
    simp only
    split_ifs
    · simp
    · have hle : l.length - i ≤ l.length := Nat.sub_le _ _
      rw [List.length_append, List.length_singleton, Nat.add_sub_add_right,
        List.drop_append_of_le_length hle]
      simp
  | subscribe channel op => simp [Call.passed]
  | connectionFactory => cases request <;> cases he
  | stopConsuming connection queues => cases request <;> cases he
  | close connection => cases request <;> cases he

theorem due_subset (call : Option Call) {l : List EstablishedSubscription} : due call l ⊆ l := by
  intro r hr
  rcases call with _ | ⟨request, awaits⟩
  · exact hr
  · cases awaits with
    | restore i s channel op => exact List.mem_of_mem_drop (List.mem_of_mem_dropLast hr)
    | subscribe channel op => exact List.mem_of_mem_dropLast hr
    | connectionFactory => cases hr
    | stopConsuming connection queues => cases hr
    | close connection => cases hr

/-- What is due without the record was due with it. -/
theorem due_filter {call : Option Call} {l : List EstablishedSubscription} {key : SubscriptionKey}
    (hp : ∀ c ∈ call, ∀ r ∈ c.passed l, r.key ≠ key) :
    due call (l.filter (·.key ≠ key)) ⊆ due call l := by
  rcases call with _ | ⟨request, awaits⟩
  · exact fun r hr => List.mem_of_mem_filter hr
  rcases List.eq_nil_or_concat l with rfl | ⟨l, r, rfl⟩
  · exact fun _ hr => hr
  rw [List.concat_eq_append] at hp ⊢
  have hp := hp _ rfl
  cases awaits with
  | restore i s channel op =>
    have hne : r.key ≠ key := hp r (passed_last (by cases request <;> rfl) l r)
    show ((List.filter _ (l ++ [r])).drop _).dropLast ⊆ ((l ++ [r]).drop _).dropLast
    rw [filter_key_concat hne, due_restore,
      due_restore]
    refine drop_filter_subset fun hi x hx => decide_eq_true (hp x ?_)
    have hle : l.length - i ≤ l.length := Nat.sub_le _ _
    have hlen : ¬ (l ++ [r]).length ≤ i + 1 := by simpa using hi
    show x ∈ if (l ++ [r]).length ≤ i + 1 then _ else _
    rw [if_neg hlen, List.length_append, List.length_singleton, Nat.add_sub_add_right,
      List.drop_append_of_le_length hle]
    exact List.mem_append_left _ hx
  | subscribe channel op =>
    have hne : r.key ≠ key := hp r (by simp [Call.passed])
    show (List.filter _ (l ++ [r])).dropLast ⊆ (l ++ [r]).dropLast
    rw [filter_key_concat hne,
      List.dropLast_concat, List.dropLast_concat]
    exact fun x hx => List.mem_of_mem_filter hx
  | connectionFactory => exact fun _ hr => hr
  | stopConsuming connection queues => exact fun _ hr => hr
  | close connection => exact fun _ hr => hr

/-- `unsubscribe` of a record that the call in progress has not gone through. -/
theorem unsubscribe_tracks {behind : Prop} {s : Sys} {call : Option Call}
    (h : Tracks behind s.gateway s.bound call) {key : SubscriptionKey}
    (hp : s.gateway.connection.isSome = true →
      ∀ c ∈ call, ∀ r ∈ c.passed s.gateway.subscriptions, r.key ≠ key) :
    Tracks behind (s.unsubscribe key).gateway s.bound call := by
  rcases hx : s.gateway.findSubscription key with _ | x
  · rw [show s.unsubscribe key = s by unfold Sys.unsubscribe; rw [hx]]
    exact h
  obtain ⟨hsubs, hexc, hcons⟩ := unsubscribe_spec h.recorded hx
  have hconn : (s.unsubscribe key).gateway.connection = s.gateway.connection := by
    obtain ⟨_, _, _, he⟩ := unsubscribe_eq s key
    rw [he]
  have hmem : ∀ r ∈ (s.unsubscribe key).gateway.subscriptions, r ∈ s.gateway.subscriptions := by
    rw [hsubs]
    exact fun r hr => List.mem_of_mem_filter hr
  have hrec := h.recorded
  refine ⟨⟨?_, fun r hr => hrec.valid r (hmem r hr), fun r hr => hrec.named r (hmem r hr),
    fun queue hc => ?_, fun queue hc hsys => ?_, ?_⟩, fun c hc ha => ?_, fun hc => ?_,
    fun hc c hcall sub op he => ?_⟩
  · rw [hsubs]
    exact hrec.distinct.sublist (List.filter_sublist.map _)
  · rw [hsubs]
    exact ((hcons queue).1 hc).2
  · rw [hexc]
    exact hrec.reserved queue ((hcons queue).1 hc).1 hsys
  · rw [hexc]
    exact hrec.exclusive
  · rw [hconn]
    exact h.connecting c hc ha
  · rw [hconn] at hc
    refine (h.settled hc).imp_right fun hd r hr => ?_
    rw [hsubs] at hr
    obtain ⟨queue, hq, hn, hb, hc'⟩ := hd r (due_filter (hp hc) hr)
    refine ⟨queue, ?_, hn, hb, (hcons queue).2 ⟨hc', r, due_subset call hr, hn⟩⟩
    unfold queueOf
    rw [hexc]
    exact hq
  · rw [hconn] at hc
    obtain ⟨l, r, hl, hr, hprog⟩ := h.flight hc c hcall sub op he
    refine ⟨l.filter (·.key ≠ key), r, ?_, hr, hprog.congr hexc⟩
    have hne : r.key ≠ key := hp hc c hcall r (hl ▸ passed_last he l r)
    rw [hsubs, hl, filter_key_concat hne]

end RabbitMqGateway

end NodeCqrs
