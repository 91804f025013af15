import NodeCqrs.Lib.Entries
import NodeCqrs.Proofs.RabbitMqArguments

/-!
# What the handlers of a queue are served with

The consumer of a queue has the options of the subscription that came first, and outlives it; the
limit stays with the channel even when the consumer goes. So what the handlers of a queue are served
with is what a recorded subscription asks for, whatever the order, if and only if they all ask for
the same, and have no limit of a former consumer left to them (`independent_iff`).
-/

namespace NodeCqrs

open RabbitMqGateway

namespace CallsInTurn

/-- What a subscription asks to be served with. -/
def Established.requested (s : Established) : ConsumerOptions :=
  Gateway.options s (s.concurrentLimit.getD 0)

/-- `subscribe` takes the arguments. -/
structure Established.Accepted (s : Established) : Prop where
  check : s.check = .ok ()
  deadLetters : ¬ Gateway.NoDeadLetters s.toSubscription
  limit : ∀ limit ∈ s.concurrentLimit,
    assertNonNegativeInteger limit "options.concurrentLimit" = .ok ()

namespace Gateway

variable {g g' : Gateway} {s : Established} {name : String} {Q : Option String}
  {key : SubscriptionKey}

/-- The given name of a durable queue, or of the exclusive one. -/
def queue (g : Gateway) (name : String) (Q : Option String) : String :=
  Q.getD (if g.exclusiveQueueName = "" then name else g.exclusiveQueueName)

/-- What the handler of a subscription is served with. -/
def served (g : Gateway) (key : SubscriptionKey) : Option ConsumerOptions :=
  (g.findSubscription key).bind fun r => r.queueGivenName.bind (List.lookup · g.queueConsumers)

/-! ## One call -/

/-- What `subscribe` does to the queue of the subscription: it has a consumer from then on, created
here if it had none. -/
structure Joins (name : String) (g : Gateway) (s : Established) (g' : Gateway) : Prop where
  connected : g'.connected = true
  queue : g'.queue name (ifTruthy s.queueName) = g.queue name (ifTruthy s.queueName)
  find : ∀ key, g'.findSubscription key =
    if key = s.key then some { s with queueGivenName := some (g.queue name (ifTruthy s.queueName)) }
    else g.findSubscription key
  consumer : g'.queueConsumers.lookup (g.queue name (ifTruthy s.queueName)) =
    (g.queueConsumers.lookup (g.queue name (ifTruthy s.queueName))).or
      (some (options s (s.concurrentLimit.getD (g.prefetch (s.queueName.getD "")))))
  prefetch : g'.prefetch (s.queueName.getD "") =
    if (g.queueConsumers.lookup (g.queue name (ifTruthy s.queueName))).isSome
    then g.prefetch (s.queueName.getD "")
    else s.concurrentLimit.getD (g.prefetch (s.queueName.getD ""))

theorem prefetch_setPrefetch (g : Gateway) (key : String) (limit : ℤ) :
    (g.setPrefetch key limit).prefetch key = limit := by
  simp [setPrefetch, prefetch]

theorem assertConsumer_spec (ha : s.Accepted) (g : Gateway) (queue : String) :
    ∃ g' created, g.assertConsumer s queue = (g', .ok created)
      ∧ g'.connected = g.connected ∧ g'.subscriptions = g.subscriptions
      ∧ g'.exclusiveQueueName = g.exclusiveQueueName
      ∧ g'.queueConsumers.lookup queue = (g.queueConsumers.lookup queue).or
        (some (options s (s.concurrentLimit.getD (g.prefetch (s.queueName.getD "")))))
      ∧ g'.prefetch (s.queueName.getD "") = if (g.queueConsumers.lookup queue).isSome
        then g.prefetch (s.queueName.getD "")
        else s.concurrentLimit.getD (g.prefetch (s.queueName.getD "")) := by
  unfold assertConsumer
  rcases hl : g.queueConsumers.lookup queue with _ | c
  · rcases hlimit : s.concurrentLimit with _ | limit
    · exact ⟨_, _, rfl, rfl, rfl, rfl, List.lookup_cons_self, rfl⟩
    · simp only [ha.limit limit hlimit]
      refine ⟨_, _, rfl, rfl, rfl, rfl, ?_, prefetch_setPrefetch ..⟩
      rw [consume, List.lookup_cons_self, prefetch_setPrefetch]
      rfl
  · exact ⟨_, _, rfl, rfl, rfl, rfl, hl, rfl⟩

theorem assertQueueChannel_spec (hc : g.connected = true) (key : String) :
    ∃ g', g.assertQueueChannel key = .ok g' ∧ g'.prefetch key = g.prefetch key
      ∧ g'.connected = true ∧ g'.subscriptions = g.subscriptions
      ∧ g'.queueConsumers = g.queueConsumers
      ∧ g'.exclusiveQueueName = g.exclusiveQueueName := by
  unfold assertQueueChannel
  rcases hl : g.queueChannels.lookup key with _ | limit
  · rw [if_pos hc]
    refine ⟨_, rfl, ?_, hc, rfl, rfl, rfl⟩
    rw [prefetch_setPrefetch, prefetch, hl, Option.getD_none]
  · exact ⟨g, rfl, rfl, hc, rfl, rfl, rfl⟩

theorem assertQueue_spec (g : Gateway) (s : Established) (name : String) :
    ∃ g', g.assertQueue s name = (g', g.queue name (ifTruthy s.queueName))
      ∧ g'.queue name (ifTruthy s.queueName) = g.queue name (ifTruthy s.queueName)
      ∧ g'.connected = g.connected ∧ g'.subscriptions = g.subscriptions
      ∧ g'.queueConsumers = g.queueConsumers ∧ g'.queueChannels = g.queueChannels := by
  unfold assertQueue queue
  rcases ifTruthy s.queueName with _ | queueName
  · dsimp only [Option.getD_none]
    split_ifs with h
    · exact ⟨_, rfl, by simp, rfl, rfl, rfl, rfl⟩
    · exact ⟨g, rfl, by simp [h], rfl, rfl, rfl, rfl⟩
  · exact ⟨g, rfl, rfl, rfl, rfl, rfl, rfl⟩

/-- The record of a new subscription is found with its queue, and the others as they were. -/
theorem find_setQueueGivenName (hf : (g.findSubscription s.key).isSome = false) {g₁ : Gateway}
    (h₁ : g₁.subscriptions = g.subscriptions ++ [s]) (queue : String) (key : SubscriptionKey) :
    (g₁.setQueueGivenName s queue).findSubscription key =
      if key = s.key then some { s with queueGivenName := some queue }
      else g.findSubscription key := by
  have hnone : g.subscriptions.find? (·.key = s.key) = none := by simpa [findSubscription] using hf
  have hkey : ∀ r : Established, (if r.key = s.key then
      { r with queueGivenName := some queue } else r).key = r.key := fun r => by
    split_ifs <;> rfl
  unfold findSubscription setQueueGivenName
  rw [h₁, List.find?_map]
  have hcomp : ((fun r : Established => decide (r.key = key)) ∘ fun r : Established =>
      if r.key = s.key then { r with queueGivenName := some queue } else r)
      = fun r => decide (r.key = key) := by
    funext r
    exact congrArg (fun k => decide (k = key)) (hkey r)
  rw [hcomp, List.find?_append]
  split_ifs with hk
  · subst hk
    rw [hnone, Option.none_or, List.find?_singleton, if_pos (decide_eq_true rfl), Option.map_some,
      if_pos rfl]
  · rw [List.find?_singleton, if_neg (by simpa using Ne.symm hk), Option.or_none]
    generalize hl : g.subscriptions.find? _ = found
    rcases found with _ | r
    · rfl
    · have hr : r.key = key := by simpa using List.find?_some hl
      rw [Option.map_some, if_neg (hr ▸ hk)]

/-- A new subscription that is accepted is set up. -/
theorem subscribe_joins (ha : s.Accepted) (hc : g.connected = true)
    (hf : (g.findSubscription s.key).isSome = false) (name : String) :
    ∃ g' result, g.subscribe s name = (g', .ok result) ∧ Joins name g s g' := by
  obtain ⟨g₁, h₁, hp₁, hc₁, hs₁, hq₁, he₁⟩ := assertQueueChannel_spec
    (g := { g with subscriptions := g.subscriptions ++ [s] }) hc (s.queueName.getD "")
  obtain ⟨g₂, h₂, he₂, hc₂, hs₂, hq₂, hch₂⟩ := g₁.assertQueue_spec s name
  have hqueue : g₁.queue name (ifTruthy s.queueName) = g.queue name (ifTruthy s.queueName) := by
    simp only [queue, he₁]
  rw [hqueue] at h₂ he₂
  obtain ⟨g₃, created, h₃, hc₃, hs₃, he₃, hq₃, hp₃⟩ := assertConsumer_spec ha
    (g₂.setQueueGivenName s (g.queue name (ifTruthy s.queueName)))
    (g.queue name (ifTruthy s.queueName))
  have hprefetch : (g₂.setQueueGivenName s (g.queue name (ifTruthy s.queueName))).prefetch
      (s.queueName.getD "") = g.prefetch (s.queueName.getD "") := by
    refine Eq.trans ?_ hp₁
    simp only [prefetch, setQueueGivenName, hch₂]
  have hconsumers : (g₂.setQueueGivenName s (g.queue name (ifTruthy s.queueName))).queueConsumers
      = g.queueConsumers := hq₂.trans hq₁
  rw [hprefetch, hconsumers] at hq₃ hp₃
  refine ⟨g₃, ⟨g.queue name (ifTruthy s.queueName), created⟩, ?_,
    ⟨?_, ?_, fun key => ?_, hq₃, hp₃⟩⟩
  · unfold subscribe
    simp only [ha.check, hc, if_true]
    unfold establish
    rw [if_neg (Bool.eq_false_iff.1 hf)]
    have hd : ¬ (s.hasDeadLetterQueue && (ifTruthy s.queueName).isNone) = true := ha.deadLetters
    dsimp only
    rw [if_neg hd, h₁]
    simp only [h₂, h₃]
    rfl
  · rw [hc₃]
    exact hc₂.trans hc₁
  · rw [← he₂]
    simp only [queue, he₃]
    rfl
  · rw [← find_setQueueGivenName hf (hs₂.trans hs₁)]
    simp only [findSubscription, hs₃]

theorem step_joins (ha : s.Accepted) (hc : g.connected = true)
    (hst : step name g (.subscribe s) = some g') :
    (g.findSubscription s.key).isSome = false ∧ Joins name g s g' := by
  have hf : (g.findSubscription s.key).isSome = false := by
    by_contra hf
    simp only [Bool.not_eq_false] at hf
    simp [step, subscribe, ha.check, hc, establish, hf] at hst
  obtain ⟨g₁, result, h₁, hj⟩ := subscribe_joins ha hc hf name
  simp only [step, h₁, Option.some.injEq] at hst
  exact ⟨hf, hst ▸ hj⟩

theorem step_subscribe (ha : s.Accepted) (hc : g.connected = true)
    (hf : (g.findSubscription s.key).isSome = false) (name : String) :
    ∃ g', step name g (.subscribe s) = some g' ∧ Joins name g s g' := by
  obtain ⟨g₁, result, h₁, hj⟩ := subscribe_joins ha hc hf name
  exact ⟨g₁, by simp only [step, h₁], hj⟩

/-- What `unsubscribe` does: it takes the record out, and the consumer of a queue that no record is
left for. -/
structure Leaves (g : Gateway) (key : SubscriptionKey) (g' : Gateway) : Prop where
  connected : g'.connected = g.connected
  exclusiveQueueName : g'.exclusiveQueueName = g.exclusiveQueueName
  queueChannels : g'.queueChannels = g.queueChannels
  subset : g'.subscriptions ⊆ g.subscriptions
  find : ∀ k, k ≠ key → g'.findSubscription k = g.findSubscription k
  consumer : ∀ q, g'.queueConsumers.lookup q = g.queueConsumers.lookup q
    ∨ g'.queueConsumers.lookup q = none ∧ ∀ r ∈ g'.subscriptions, r.queueGivenName ≠ some q

theorem find?_eraseP_of_disjoint {α : Type*} {p q : α → Bool} (h : ∀ x, q x = true → p x = false) :
    ∀ l : List α, (l.eraseP p).find? q = l.find? q
  | [] => rfl
  | x :: l => by
    by_cases hp : p x = true
    · have hq : q x = false := by
        by_contra hq
        simp [h x (by simpa using hq)] at hp
      rw [List.eraseP_cons_of_pos hp, List.find?_cons_of_neg (by simp [hq])]
    · rw [List.eraseP_cons_of_neg hp, List.find?_cons, List.find?_cons,
        find?_eraseP_of_disjoint h l]

theorem unsubscribe_leaves (h : g.unsubscribe key = some g') : Leaves g key g' := by
  obtain ⟨s, hs, rfl⟩ := Option.map_eq_some_iff.1 h
  have hfind : ∀ k, k ≠ key → (g.subscriptions.eraseP (·.key = key)).find? (·.key = k)
      = g.subscriptions.find? (·.key = k) :=
    fun k hk => find?_eraseP_of_disjoint (fun r hr => by
      have hr : r.key = k := of_decide_eq_true hr
      exact decide_eq_false (hr ▸ hk)) _
  have hsub : g.subscriptions.eraseP (·.key = key) ⊆ g.subscriptions := List.eraseP_subset
  unfold tryDropConsumer
  split
  · exact ⟨rfl, rfl, rfl, hsub, hfind, fun _ => .inl rfl⟩
  · next queue hqueue =>
    split_ifs with hany
    · exact ⟨rfl, rfl, rfl, hsub, hfind, fun _ => .inl rfl⟩
    · refine ⟨rfl, rfl, rfl, hsub, hfind, fun q => ?_⟩
      dsimp only
      rw [Entries.lookup_filter_ne]
      split_ifs with hq
      · subst hq
        refine .inr ⟨rfl, fun r hr he => hany ?_⟩
        exact List.any_eq_true.2 ⟨r, hr, decide_eq_true he⟩
      · exact .inl rfl

theorem Leaves.queue (h : Leaves g key g') (name : String) (Q : Option String) :
    g'.queue name Q = g.queue name Q := by
  simp only [Gateway.queue, h.exclusiveQueueName]

theorem Leaves.prefetch (h : Leaves g key g') (k : String) : g'.prefetch k = g.prefetch k := by
  simp only [Gateway.prefetch, h.queueChannels]

/-! ## Any run -/

/-- The subscription is recorded for the queue. -/
def On (g : Gateway) (queue : String) (key : SubscriptionKey) : Prop :=
  ∃ r, g.findSubscription key = some r ∧ r.queueGivenName = some queue

theorem On.served {queue : String} {c : ConsumerOptions} (h : g.On queue key)
    (hl : g.queueConsumers.lookup queue = some c) : g.served key = some c := by
  obtain ⟨r, hr, hq⟩ := h
  rw [Gateway.served, hr, Option.bind_some, hq, Option.bind_some, hl]

/-- A subscription stays on record until it is unsubscribed. -/
theorem on_step {call : Call} (hc : g.connected = true)
    (hcall : ∀ s, call = .subscribe s → s.Accepted ∧ ifTruthy s.queueName = Q)
    (hst : step name g call = some g') : g'.connected = true ∧ g'.queue name Q = g.queue name Q
      ∧ ∀ key, call ≠ .unsubscribe key → (g.On (g.queue name Q) key
        ∨ ∃ s, call = .subscribe s ∧ s.key = key) → g'.On (g.queue name Q) key := by
  cases call with
  | subscribe s =>
    obtain ⟨ha, rfl⟩ := hcall s rfl
    obtain ⟨hf, hj⟩ := step_joins ha hc hst
    refine ⟨hj.connected, hj.queue, fun key _ hon => ?_⟩
    by_cases hk : key = s.key
    · exact ⟨_, by rw [hj.find, if_pos hk], rfl⟩
    · rcases hon with ⟨r, hr, hq⟩ | ⟨s', he, rfl⟩
      · exact ⟨r, by rw [hj.find, if_neg hk, hr], hq⟩
      · cases he
        exact absurd rfl hk
  | unsubscribe k =>
    have hl := unsubscribe_leaves hst
    refine ⟨hl.connected.trans hc, hl.queue name Q, fun key hne hon => ?_⟩
    rcases hon with ⟨r, hr, hq⟩ | ⟨s', he, -⟩
    · exact ⟨r, by rw [hl.find key (fun h => hne (h ▸ rfl)), hr], hq⟩
    · cases he

theorem on_run : ∀ {l : List Call} {g g' : Gateway}, g.connected = true →
    (∀ s, .subscribe s ∈ l → s.Accepted ∧ ifTruthy s.queueName = Q) →
    (machine name).run g l = some g' → g'.queue name Q = g.queue name Q
      ∧ ∀ key, .unsubscribe key ∉ l → (g.On (g.queue name Q) key
        ∨ ∃ s, .subscribe s ∈ l ∧ s.key = key) → g'.On (g.queue name Q) key
  | [], g, g', _, _, hr => by
    obtain rfl := Option.some.inj hr
    exact ⟨rfl, fun key _ hon => hon.resolve_right fun ⟨_, h, _⟩ => List.not_mem_nil h⟩
  | call :: l, g, g', hc, hl, hr => by
    obtain ⟨t, hst, hr⟩ := Option.bind_eq_some_iff.1 hr
    obtain ⟨hct, hqt, hon⟩ := on_step hc (fun s he => hl s (he ▸ List.mem_cons_self ..)) hst
    obtain ⟨hq', hon'⟩ := on_run hct (fun s hs => hl s (List.mem_cons_of_mem _ hs)) hr
    rw [hqt] at hq' hon'
    refine ⟨hq', fun key hk h => hon' key (fun hk' => hk (List.mem_cons_of_mem _ hk')) ?_⟩
    have hne : call ≠ .unsubscribe key := fun he => hk (he ▸ List.mem_cons_self ..)
    rcases h with h | ⟨s, hs, he⟩
    · exact .inl (hon key hne (.inl h))
    · rcases List.mem_cons.1 hs with rfl | hs
      · exact .inl (hon key hne (.inr ⟨s, rfl, he⟩))
      · exact .inr ⟨s, hs, he⟩

/-! ## Subscriptions that ask for the same -/

/-- Whoever is on the queue is served with the options, and so will be those who come. -/
structure Serves (S : List Established) (name : String) (Q : Option String) (e : ConsumerOptions)
    (g : Gateway) : Prop where
  connected : g.connected = true
  fits : ∀ s ∈ S, s.concurrentLimit.getD (g.prefetch (Q.getD "")) = e.prefetch
  consumer : ∀ c ∈ g.queueConsumers.lookup (g.queue name Q), c = e
  served : ∀ r ∈ g.subscriptions, r.queueGivenName = some (g.queue name Q) →
    g.queueConsumers.lookup (g.queue name Q) = some e

theorem getD_ifTruthy (s : Option String) : (ifTruthy s).getD "" = s.getD "" := by
  rcases s with _ | s
  · rfl
  · by_cases h : s = "" <;> simp [ifTruthy, Option.filter, h]

theorem serves_step {S : List Established} {e : ConsumerOptions} {call : Call}
    (h : Serves S name Q e g) (hcall : ∀ s, call = .subscribe s →
      s ∈ S ∧ s.Accepted ∧ ifTruthy s.queueName = Q ∧ s.requested = e)
    (hst : step name g call = some g') : Serves S name Q e g' := by
  cases call with
  | subscribe s =>
    obtain ⟨hs, ha, rfl, rfl⟩ := hcall s rfl
    obtain ⟨-, hj⟩ := step_joins ha h.connected hst
    have hfit := h.fits s hs
    have hp := hj.prefetch
    have hcons := hj.consumer
    rw [← getD_ifTruthy] at hp hcons
    rw [hfit] at hp hcons
    have hserved : g'.queueConsumers.lookup (g'.queue name (ifTruthy s.queueName))
        = some s.requested := by
      rw [hj.queue, hcons]
      rcases hl : g.queueConsumers.lookup (g.queue name (ifTruthy s.queueName)) with _ | c
      · rfl
      · rw [h.consumer c hl, Option.some_or]
    refine ⟨hj.connected, fun t ht => ?_, fun c hc => ?_, fun _ _ _ => hserved⟩
    · rw [hp]
      split_ifs
      · exact h.fits t ht
      · have hft := h.fits t ht
        rcases hlim : t.concurrentLimit with _ | limit
        · rfl
        · rwa [hlim] at hft
    · rw [hserved] at hc
      exact (Option.some.inj hc).symm
  | unsubscribe k =>
    have hl := unsubscribe_leaves hst
    refine ⟨hl.connected.trans h.connected, fun s hs => ?_, fun c hc => ?_, fun r hr hq => ?_⟩
    · rw [hl.prefetch]
      exact h.fits s hs
    · rw [hl.queue] at hc
      rcases hl.consumer (g.queue name Q) with he | ⟨he, -⟩
      · exact h.consumer c (he ▸ hc)
      · rw [he] at hc
        cases hc
    · rw [hl.queue] at hq ⊢
      rcases hl.consumer (g.queue name Q) with he | ⟨-, hno⟩
      · exact he ▸ h.served r (hl.subset hr) hq
      · exact absurd hq (hno r hr)

theorem serves_run {S : List Established} {e : ConsumerOptions} {l : List Call}
    (h : Serves S name Q e g) (hl : ∀ s, .subscribe s ∈ l →
      s ∈ S ∧ s.Accepted ∧ ifTruthy s.queueName = Q ∧ s.requested = e)
    (hr : (machine name).run g l = some g') : Serves S name Q e g' :=
  Machine.run_invariant (M := machine name) (I := Serves S name Q e)
    (C := fun _ call => ∀ s, call = .subscribe s →
      s ∈ S ∧ s.Accepted ∧ ifTruthy s.queueName = Q ∧ s.requested = e)
    (fun _ _ _ h hcall hst => serves_step h hcall hst) h
    (.of_forall fun _ hmem _ s he => hl s (he ▸ hmem)) hr

/-! ## The first one -/

/-- More subscriptions change nothing for a queue that has its consumer. -/
theorem run_subscribes {c : ConsumerOptions} : ∀ {L : List Established} {g : Gateway},
    g.connected = true → (∀ s ∈ L, s.Accepted ∧ ifTruthy s.queueName = Q
      ∧ (g.findSubscription s.key).isSome = false) → (L.map (·.key)).Nodup →
    g.queueConsumers.lookup (g.queue name Q) = some c →
    ∃ g', (machine name).run g (L.map .subscribe) = some g'
      ∧ g'.queueConsumers.lookup (g.queue name Q) = some c
  | [], g, _, _, _, hl => ⟨g, rfl, hl⟩
  | s :: L, g, hc, hs, hnd, hl => by
    obtain ⟨ha, hQ, hf⟩ := hs s (List.mem_cons_self ..)
    obtain ⟨hnot, hnd⟩ := List.nodup_cons.1 hnd
    obtain ⟨g₁, h₁, hj⟩ := step_subscribe ha hc hf name
    have hq₁ : g₁.queue name Q = g.queue name Q := hQ ▸ hj.queue
    have hl₁ : g₁.queueConsumers.lookup (g₁.queue name Q) = some c := by
      rw [hq₁, ← hQ, hj.consumer, hQ, hl, Option.some_or]
    obtain ⟨g', hr, hl'⟩ := run_subscribes hj.connected (fun t ht => by
      obtain ⟨hat, hqt, hft⟩ := hs t (List.mem_cons_of_mem _ ht)
      have hne : t.key ≠ s.key := fun he => hnot (List.mem_map.2 ⟨t, ht, he⟩)
      refine ⟨hat, hqt, ?_⟩
      rw [hj.find, if_neg hne, hft]) hnd hl₁
    rw [hq₁] at hl'
    exact ⟨g', Option.bind_eq_some_iff.2 ⟨g₁, h₁, hr⟩, hl'⟩

/-- Nor does it matter who leaves, as long as someone stays. -/
theorem run_unsubscribes {c : ConsumerOptions} {stays : SubscriptionKey} :
    ∀ {K : List SubscriptionKey} {g : Gateway}, K.Nodup → stays ∉ K →
    (∀ k ∈ K, (g.findSubscription k).isSome) → g.On (g.queue name Q) stays →
    g.queueConsumers.lookup (g.queue name Q) = some c →
    ∃ g', (machine name).run g (K.map .unsubscribe) = some g'
      ∧ g'.queueConsumers.lookup (g.queue name Q) = some c
  | [], g, _, _, _, _, hl => ⟨g, rfl, hl⟩
  | k :: K, g, hnd, hstays, hK, ⟨r, hr, hq⟩, hl => by
    obtain ⟨hnot, hnd⟩ := List.nodup_cons.1 hnd
    obtain ⟨hne, hstays⟩ := not_or.1 (fun h => hstays (List.mem_cons.2 h))
    obtain ⟨r', hr'⟩ := Option.isSome_iff_exists.1 (hK k (List.mem_cons_self ..))
    obtain ⟨g₁, h₁⟩ : ∃ g₁, g.unsubscribe k = some g₁ := ⟨_, by rw [unsubscribe, hr']; rfl⟩
    have hleaves := unsubscribe_leaves h₁
    have hr₁ : g₁.findSubscription stays = some r := by rw [hleaves.find stays hne, hr]
    have hl₁ : g₁.queueConsumers.lookup (g.queue name Q) = some c := by
      rcases hleaves.consumer (g.queue name Q) with he | ⟨-, hno⟩
      · rw [he, hl]
      · exact absurd hq (hno r (List.mem_of_find?_eq_some hr₁))
    rw [← hleaves.queue] at hq hl₁
    obtain ⟨g', hrun, hl'⟩ := run_unsubscribes hnd hstays (fun k' hk' => by
      rw [hleaves.find k' (fun he => hnot (he ▸ hk'))]
      exact hK k' (List.mem_cons_of_mem _ hk')) ⟨r, hr₁, hq⟩ hl₁
    rw [hleaves.queue] at hl'
    exact ⟨g', Option.bind_eq_some_iff.2 ⟨g₁, h₁, hrun⟩, hl'⟩

end Gateway

open Gateway

variable {g : Gateway} {name : String} {Q : Option String} {S : List Established}

def Call.subscribes : Call → Option Established
  | .subscribe s => some s
  | .unsubscribe _ => none

def Call.unsubscribes : Call → Option SubscriptionKey
  | .subscribe _ => none
  | .unsubscribe key => some key

/-- An order of subscribing `S` and of unsubscribing `U`. -/
structure Orders (S : List Established) (U : List SubscriptionKey) (l : List Call) : Prop where
  subscribes : (l.filterMap Call.subscribes).Perm S
  unsubscribes : (l.filterMap Call.unsubscribes).Perm U

/-- No one is on the queue. -/
structure Unused (g : Gateway) (name : String) (Q : Option String) : Prop where
  connected : g.connected = true
  consumer : g.queueConsumers.lookup (g.queue name Q) = none
  subscriptions : ∀ r ∈ g.subscriptions, r.queueGivenName ≠ some (g.queue name Q)

/-- The gateway takes them all for the queue. -/
structure Shares (g : Gateway) (Q : Option String) (S : List Established) : Prop where
  queue : ∀ s ∈ S, ifTruthy s.queueName = Q
  accepted : ∀ s ∈ S, s.Accepted
  keys : (S.map (·.key)).Nodup
  fresh : ∀ s ∈ S, (g.findSubscription s.key).isSome = false

/-- Whatever the order, those that remain are served with the same, which is what one of them asks
for. -/
def Independent (g : Gateway) (Q : Option String) (S : List Established) : Prop :=
  ∀ name₁ name₂ U l₁ l₂ g₁ g₂, Unused g name₁ Q → Unused g name₂ Q →
    Orders S U l₁ → Orders S U l₂ →
    (machine name₁).run g l₁ = some g₁ → (machine name₂).run g l₂ = some g₂ →
    ∀ s ∈ S, s.key ∉ U → g₁.served s.key = g₂.served s.key
      ∧ ∃ r ∈ S, r.key ∉ U ∧ g₁.served s.key = some r.requested

theorem Orders.mem_subscribe {U : List SubscriptionKey} {l : List Call} (h : Orders S U l)
    {s : Established} : .subscribe s ∈ l ↔ s ∈ S := by
  rw [← h.subscribes.mem_iff, List.mem_filterMap]
  constructor
  · exact fun hs => ⟨_, hs, rfl⟩
  · rintro ⟨call, hcall, he⟩
    cases call with
    | subscribe t => exact Option.some.inj he ▸ hcall
    | unsubscribe => cases he

theorem Orders.mem_unsubscribe {U : List SubscriptionKey} {l : List Call} (h : Orders S U l)
    {key : SubscriptionKey} : .unsubscribe key ∈ l ↔ key ∈ U := by
  rw [← h.unsubscribes.mem_iff, List.mem_filterMap]
  constructor
  · exact fun hs => ⟨_, hs, rfl⟩
  · rintro ⟨call, hcall, he⟩
    cases call with
    | subscribe => cases he
    | unsubscribe t => exact Option.some.inj he ▸ hcall

/-- All are subscribed, and then some are unsubscribed. -/
theorem orders_append {L : List Established} (hL : L.Perm S) (K : List SubscriptionKey) :
    Orders S K (L.map .subscribe ++ K.map .unsubscribe) := by
  constructor
  · have hL' : (L.map Call.subscribe).filterMap Call.subscribes = L := by
      rw [List.filterMap_map]
      exact List.filterMap_some
    have hK : (K.map Call.unsubscribe).filterMap Call.subscribes = [] := by
      rw [List.filterMap_map]
      exact List.filterMap_eq_nil_iff.2 fun _ _ => rfl
    rwa [List.filterMap_append, hL', hK, List.append_nil]
  · have hL' : (L.map Call.subscribe).filterMap Call.unsubscribes = [] := by
      rw [List.filterMap_map]
      exact List.filterMap_eq_nil_iff.2 fun _ _ => rfl
    have hK : (K.map Call.unsubscribe).filterMap Call.unsubscribes = K := by
      rw [List.filterMap_map]
      exact List.filterMap_some
    rw [List.filterMap_append, hL', hK, List.nil_append]

/-- Those that remain are recorded for the queue. -/
theorem Orders.on {U : List SubscriptionKey} {l : List Call} {g' : Gateway} (h : Orders S U l)
    (hs : Shares g Q S) (hc : g.connected = true) (hr : (machine name).run g l = some g') :
    g'.queue name Q = g.queue name Q ∧ ∀ s ∈ S, s.key ∉ U → g'.On (g.queue name Q) s.key := by
  obtain ⟨hq, hon⟩ := on_run hc (fun s hmem =>
    have hmem := h.mem_subscribe.1 hmem
    ⟨hs.accepted s hmem, hs.queue s hmem⟩) hr
  exact ⟨hq, fun s hmem hno => hon s.key (fun hk => hno (h.mem_unsubscribe.1 hk))
    (.inr ⟨s, h.mem_subscribe.2 hmem, rfl⟩)⟩

/-- If they all ask for the same, and the channel has no limit that one of them does not set, the
remaining are served with it. -/
theorem served_same {e : ConsumerOptions} {U : List SubscriptionKey} {l : List Call} {g' : Gateway}
    (hu : Unused g name Q) (hs : Shares g Q S) (he : ∀ s ∈ S, s.requested = e)
    (hp : g.prefetch (Q.getD "") = 0 ∨ ∀ s ∈ S, s.concurrentLimit ≠ none) (h : Orders S U l)
    (hr : (machine name).run g l = some g') :
    ∀ s ∈ S, s.key ∉ U → g'.served s.key = some e := by
  have hserves : Serves S name Q e g := by
    refine ⟨hu.connected, fun s hmem => ?_, fun c hc => ?_, fun r hmem hq => ?_⟩
    · have hreq : s.concurrentLimit.getD 0 = e.prefetch :=
        congrArg ConsumerOptions.prefetch (he s hmem)
      rcases hp with hp | hp
      · rwa [hp]
      · obtain ⟨limit, hl⟩ := Option.ne_none_iff_exists'.1 (hp s hmem)
        rw [hl] at hreq ⊢
        exact hreq
    · rw [hu.consumer] at hc
      cases hc
    · exact absurd hq (hu.subscriptions r hmem)
  have hserves' := serves_run hserves (fun s hmem =>
    have hmem := h.mem_subscribe.1 hmem
    ⟨hmem, hs.accepted s hmem, hs.queue s hmem, he s hmem⟩) hr
  obtain ⟨hq, hon⟩ := h.on hs hu.connected hr
  intro s hmem hno
  obtain ⟨r, hf, hgiven⟩ := hon s hmem hno
  refine On.served ⟨r, hf, hgiven⟩ ?_
  rw [← hq] at hgiven ⊢
  exact hserves'.served r (List.mem_of_find?_eq_some hf) hgiven

/-- With one of them first, the remaining are served with what that one gets. -/
theorem served_first (hu : Unused g name Q) {s : Established} {L : List Established}
    (hs : Shares g Q S) (hS : (s :: L).Perm S) {K : List SubscriptionKey} (hnd : K.Nodup)
    (hK : ∀ k ∈ K, k ∈ L.map (·.key)) : ∃ l g', Orders S K l ∧ (machine name).run g l = some g' ∧
      ∀ t ∈ S, t.key ∉ K → g'.served t.key =
        some (options s (s.concurrentLimit.getD (g.prefetch (Q.getD "")))) := by
  have hmem : ∀ t, t ∈ s :: L ↔ t ∈ S := fun t => hS.mem_iff
  have hsS := (hmem s).1 (List.mem_cons_self ..)
  have hkeys : ((s :: L).map (·.key)).Nodup := (hS.map _).nodup_iff.2 hs.keys
  obtain ⟨hnot, hkeysL⟩ := List.nodup_cons.1 hkeys
  have hQ := hs.queue s hsS
  obtain ⟨g₁, h₁, hj⟩ := step_subscribe (hs.accepted s hsS) hu.connected (hs.fresh s hsS) name
  have hq₁ : g₁.queue name Q = g.queue name Q := hQ ▸ hj.queue
  have hl₁ : g₁.queueConsumers.lookup (g₁.queue name Q)
      = some (options s (s.concurrentLimit.getD (g.prefetch (Q.getD "")))) := by
    have hc := hj.consumer
    rw [← getD_ifTruthy, hQ, hu.consumer, Option.none_or] at hc
    rw [hq₁, hc]
  obtain ⟨g₂, h₂, hl₂⟩ := run_subscribes hj.connected (fun t ht => by
    have htS := (hmem t).1 (List.mem_cons_of_mem _ ht)
    have hne : t.key ≠ s.key := fun he => hnot (List.mem_map.2 ⟨t, ht, he⟩)
    refine ⟨hs.accepted t htS, hs.queue t htS, ?_⟩
    rw [hj.find, if_neg hne, hs.fresh t htS]) hkeysL hl₁
  have hrun₂ : (machine name).run g ((s :: L).map .subscribe) = some g₂ :=
    Option.bind_eq_some_iff.2 ⟨g₁, h₁, h₂⟩
  have horder₂ : Orders S [] ((s :: L).map .subscribe) := by
    simpa using orders_append hS []
  obtain ⟨hq₂, hon₂⟩ := horder₂.on hs hu.connected hrun₂
  rw [hq₁, ← hq₂] at hl₂
  obtain ⟨g₃, h₃, hl₃⟩ := run_unsubscribes hnd (fun hk => hnot (hK _ hk)) (fun k hk => by
    obtain ⟨t, ht, rfl⟩ := List.mem_map.1 (hK k hk)
    obtain ⟨r, hr, -⟩ := hon₂ t ((hmem t).1 (List.mem_cons_of_mem _ ht)) List.not_mem_nil
    rw [hr]
    rfl) (hq₂.symm ▸ hon₂ s hsS List.not_mem_nil) hl₂
  have horder := orders_append hS K
  have hrun : (machine name).run g ((s :: L).map .subscribe ++ K.map .unsubscribe) = some g₃ := by
    rw [Machine.run_append, hrun₂]
    exact h₃
  obtain ⟨-, hon⟩ := horder.on hs hu.connected hrun
  rw [hq₂] at hl₃
  exact ⟨_, g₃, horder, hrun, fun t ht hno => (hon t ht hno).served hl₃⟩

/-- Subscriptions that share a queue are served with the same settings whatever the order, which are
those of one that is recorded, if and only if they all ask for the same, and either no limit is left
on the channel or each of them sets its own. -/
theorem independent_iff (hu : Unused g name Q) (hs : Shares g Q S) :
    Independent g Q S ↔ (∀ s ∈ S, ∀ t ∈ S, s.requested = t.requested)
      ∧ (g.prefetch (Q.getD "") = 0 ∨ ∀ s ∈ S, s.concurrentLimit ≠ none) := by
  constructor
  · intro hind
    -- What one gets that is first, and in the end alone, is what it asks for.
    have halone : ∀ s ∈ S, options s (s.concurrentLimit.getD (g.prefetch (Q.getD "")))
        = s.requested := by
      intro s hsS
      have hS := List.perm_cons_erase hsS
      have hkeys := (hS.symm.map (·.key)).nodup_iff.2 hs.keys
      obtain ⟨hnot, hnd⟩ := List.nodup_cons.1 hkeys
      obtain ⟨l, g', horder, hrun, hserved⟩ := served_first hu hs hS.symm hnd fun _ => id
      obtain ⟨-, r, hr, hrU, he⟩ :=
        hind name name _ l l g' g' hu hu horder horder hrun hrun s hsS hnot
      obtain rfl : r = s := by
        rcases List.mem_cons.1 (hS.mem_iff.1 hr) with hrs | hr
        · exact hrs
        · exact absurd (List.mem_map_of_mem hr) hrU
      exact Option.some.inj ((hserved r hsS hnot).symm.trans he)
    refine ⟨fun s hsS t htS => ?_, ?_⟩
    · obtain ⟨l, g₁, horder₁, hrun₁, hserved₁⟩ := served_first hu hs (List.perm_cons_erase hsS).symm
        List.nodup_nil (by simp)
      obtain ⟨l', g₂, horder₂, hrun₂, hserved₂⟩ := served_first hu hs
        (List.perm_cons_erase htS).symm List.nodup_nil (by simp)
      have he := (hind name name [] l l' g₁ g₂ hu hu horder₁ horder₂ hrun₁ hrun₂ s hsS
        List.not_mem_nil).1
      rw [hserved₁ s hsS List.not_mem_nil, hserved₂ s hsS List.not_mem_nil, halone s hsS,
        halone t htS] at he
      exact Option.some.inj he
    · by_contra hno
      obtain ⟨hp, hno⟩ := not_or.1 hno
      push Not at hno
      obtain ⟨s, hsS, hl⟩ := hno
      have he := congrArg ConsumerOptions.prefetch (halone s hsS)
      rw [Established.requested, hl] at he
      exact hp he
  · rintro ⟨hsame, hp⟩ name₁ name₂ U l₁ l₂ g₁ g₂ hu₁ hu₂ ho₁ ho₂ hr₁ hr₂ s hsS hsU
    have he : ∀ t ∈ S, t.requested = s.requested := fun t ht => hsame t ht s hsS
    have h₁ := served_same hu₁ hs he hp ho₁ hr₁ s hsS hsU
    have h₂ := served_same hu₂ hs he hp ho₂ hr₂ s hsS hsU
    exact ⟨h₁.trans h₂.symm, s, hsS, hsU, h₁⟩

section Runs

/-- A subscription of the queue "q". -/
def ofQueue (handler : ℕ) (noAck : Option Bool) (handlerProcessTimeout : Option ℤ) :
    Established where
  exchange := "e"
  queueName := some "q"
  handler := handler
  concurrentLimit := some 5
  handlerProcessTimeout := handlerProcessTimeout
  noAck := noAck

theorem unused_init : Unused { connected := true } "amq.gen" (some "q") :=
  ⟨rfl, rfl, by simp⟩

theorem shares_pair {a b : Established} (ha : a.Accepted) (hb : b.Accepted)
    (hqa : ifTruthy a.queueName = some "q") (hqb : ifTruthy b.queueName = some "q")
    (hne : a.key ≠ b.key) : Shares { connected := true } (some "q") [a, b] where
  queue := by simp [hqa, hqb]
  accepted := by simp [ha, hb]
  keys := by simp [hne]
  fresh := by simp [Gateway.findSubscription]

theorem accepted_ofQueue (handler : ℕ) (noAck : Option Bool) :
    (ofQueue handler noAck none).Accepted ∧ (ofQueue handler noAck (some 3600000)).Accepted := by
  constructor <;> refine ⟨rfl, ?_, fun limit h => Option.some.inj h ▸ rfl⟩ <;>
    simp [NoDeadLetters, ofQueue, ifTruthy, Option.filter]

/-- Both want to acknowledge, in an hour at the most. -/
theorem independent_pair : Independent { connected := true } (some "q")
    [ofQueue 0 none none, ofQueue 1 (some false) (some 3600000)] :=
  (independent_iff unused_init (shares_pair (accepted_ofQueue 0 none).1
    (accepted_ofQueue 1 (some false)).2 rfl rfl (by decide))).2 ⟨by decide, .inl rfl⟩

/-- One wants to acknowledge and the other does not. -/
theorem not_independent : ¬ ∀ g name Q S, Unused g name Q → Shares g Q S → Independent g Q S := by
  intro hall
  have hind := hall _ _ _ _ unused_init (shares_pair (accepted_ofQueue 0 none).1
    (accepted_ofQueue 1 (some true)).1 rfl rfl (by decide))
  have h := (hind "amq.gen" "amq.gen" []
    [.subscribe (ofQueue 0 none none), .subscribe (ofQueue 1 (some true) none)]
    [.subscribe (ofQueue 1 (some true) none), .subscribe (ofQueue 0 none none)] _ _ unused_init
    unused_init ⟨.refl _, .refl _⟩ ⟨.swap .., .refl _⟩ rfl rfl (ofQueue 0 none none) (by simp)
    List.not_mem_nil).1
  exact absurd h (by decide)

end Runs

end CallsInTurn

end NodeCqrs
