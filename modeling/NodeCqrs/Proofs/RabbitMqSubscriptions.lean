import NodeCqrs.Proofs.RabbitMqGateway

/-!
# How far the subscriptions are established

A record is established once its queue is bound and has a consumer on the connection. The one that a
call is at is as far as the operation it awaits says (`Progress`), and every consumer is on a queue
of a record (`Recorded`). Queues whose names the broker gives are told by them from the durable ones.
-/

namespace NodeCqrs

open RabbitMqGateway

/-- `#subscribe` has its queue bound unless an operation fails. -/
def Subscription.Valid (s : Subscription) : Prop :=
  (s.hasDeadLetterQueue = true → (ifTruthy s.queueName).isSome = true)
    ∧ ∀ queue ∈ ifTruthy s.queueName, isSystemQueue queue = false

instance (s : Subscription) : Decidable s.Valid := inferInstanceAs (Decidable (_ ∧ _))

/-- The queue has the name it is to have, or one of the broker's. -/
def Subscription.Names (s : Subscription) (queue : String) : Prop :=
  match ifTruthy s.queueName with
  | some queueName => queue = queueName
  | none => isSystemQueue queue = true

namespace RabbitMqGateway

/-- The queue the subscription consumes from. -/
def queueOf (g : RabbitMqGateway) (s : Subscription) : Option String :=
  (ifTruthy s.queueName).or (ifTruthy (some g.exclusiveQueueName))

/-- The record is bound and consumed on the connection. -/
def Established (g : RabbitMqGateway) (bound : List Binding) (r : EstablishedSubscription) : Prop :=
  ∃ queue ∈ g.queueOf r.toSubscription, r.queueGivenName = some queue
    ∧ (∀ b ∈ r.bindings queue, b ∈ bound) ∧ g.hasConsumer queue = true

instance (g : RabbitMqGateway) (bound : List Binding) (r : EstablishedSubscription) :
    Decidable (g.Established bound r) :=
  inferInstanceAs (Decidable (∃ queue ∈ g.queueOf r.toSubscription, _))

/-- `#subscribe` asserts a queue of this kind for the subscription, after what comes before it. -/
def Fits (g : RabbitMqGateway) (bound : List Binding) (s : Subscription) : QueueKind → Prop
  | .deadLetter => (ifTruthy s.queueName).isSome = true
  | .durable => ∃ queue, ifTruthy s.queueName = some queue ∧
      (s.hasDeadLetterQueue = true → s.deadLetterBinding queue ∈ bound)
  | .exclusive => ifTruthy s.queueName = none ∧ g.exclusiveQueueName = ""
  | .existing => ifTruthy s.queueName = none ∧ g.exclusiveQueueName ≠ ""

/-- The name that the queue of the kind is bound with. -/
def Binds (g : RabbitMqGateway) (s : Subscription) (queue : String) : QueueKind → Prop
  | .exclusive => isSystemQueue queue = true
  | .existing => queue = g.exclusiveQueueName
  | kind => queue = requestedName s kind

/-- How far `#subscribe` got with the record when it awaits the operation. -/
def Progress (g : RabbitMqGateway) (bound : List Binding) (r : EstablishedSubscription) :
    Subscribing → Prop
  | .createChannel => True
  | .assertExchange kind => g.Fits bound r.toSubscription kind ∧ kind ≠ .existing
  | .assertQueue kind => g.Fits bound r.toSubscription kind ∧ kind ≠ .existing
  | .bindQueue kind queue =>
    g.Fits bound r.toSubscription kind ∧ g.Binds r.toSubscription queue kind
  | .prefetch queue => g.queueOf r.toSubscription = some queue ∧ r.queueGivenName = some queue
      ∧ ∀ b ∈ r.bindings queue, b ∈ bound
  | .consume queue => g.queueOf r.toSubscription = some queue ∧ r.queueGivenName = some queue
      ∧ ∀ b ∈ r.bindings queue, b ∈ bound

/-- Where the queue that is being bound has no consumer, one can be made with the limit of the
subscription. -/
def Limits (g : RabbitMqGateway) (s : Subscription) : Subscribing → Prop
  | .bindQueue .deadLetter _ => True
  | .bindQueue _ queue => g.hasConsumer queue = false → ∀ limit ∈ s.concurrentLimit,
      (assertNonNegativeInteger limit "options.concurrentLimit").isOk = true
  | _ => True

instance (g : RabbitMqGateway) (s : Subscription) : ∀ op, Decidable (g.Limits s op)
  | .bindQueue .durable _ | .bindQueue .exclusive _ | .bindQueue .existing _ =>
    inferInstanceAs (Decidable (_ → _))
  | .bindQueue .deadLetter _ | .createChannel | .assertExchange _ | .assertQueue _ | .prefetch _
  | .consume _ => inferInstanceAs (Decidable True)

/-- The records, and the consumers they are for. -/
structure Recorded (g : RabbitMqGateway) : Prop where
  distinct : (g.subscriptions.map (·.key)).Nodup
  valid : ∀ r ∈ g.subscriptions, r.Valid
  named : ∀ r ∈ g.subscriptions, ∀ queue ∈ r.queueGivenName, r.Names queue
  consumed : ∀ queue, g.hasConsumer queue = true →
    ∃ r ∈ g.subscriptions, r.queueGivenName = some queue
  reserved : ∀ queue, g.hasConsumer queue = true → isSystemQueue queue = true →
    queue = g.exclusiveQueueName
  exclusive : g.exclusiveQueueName ≠ "" → isSystemQueue g.exclusiveQueueName = true

/-! ## Queues and consumers -/

theorem ifTruthy_eq_some {s : Option String} {t : String} :
    ifTruthy s = some t ↔ s = some t ∧ t ≠ "" := by
  simp [ifTruthy, Option.filter_eq_some_iff]

theorem hasConsumer_iff {g : RabbitMqGateway} {queue : String} :
    g.hasConsumer queue = true ↔ ∃ c ∈ g.queueConsumers, c.1 = queue := by
  simp [hasConsumer, List.lookup_isSome_iff, @eq_comm _ queue]

theorem hasConsumer_deleteConsumer {g : RabbitMqGateway} {queue q : String} :
    (g.deleteConsumer queue).hasConsumer q = true ↔ q ≠ queue ∧ g.hasConsumer q = true := by
  simp only [hasConsumer_iff, deleteConsumer, List.mem_filter, decide_eq_true_eq]
  constructor
  · rintro ⟨c, ⟨hc, hne⟩, rfl⟩
    exact ⟨hne, c, hc, rfl⟩
  · rintro ⟨hne, c, hc, rfl⟩
    exact ⟨c, ⟨hc, hne⟩, rfl⟩

theorem isSystemQueue_ne {queue : String} (h : isSystemQueue queue = true) : queue ≠ "" := by
  rintro rfl
  revert h
  decide

theorem queueOf_durable {g : RabbitMqGateway} {s : Subscription} {queue : String}
    (h : ifTruthy s.queueName = some queue) : g.queueOf s = some queue := by
  simp [queueOf, h]

theorem queueOf_exclusive {g : RabbitMqGateway} {s : Subscription}
    (h : ifTruthy s.queueName = none) (hne : g.exclusiveQueueName ≠ "") :
    g.queueOf s = some g.exclusiveQueueName := by
  simp [queueOf, h, ifTruthy_eq_some, hne]

/-- A record has the name of its queue, or the broker's name of one that is gone. -/
theorem Recorded.names {g : RabbitMqGateway} (h : g.Recorded)
    {s : Subscription} {queue : String} (hq : g.queueOf s = some queue) : s.Names queue := by
  unfold Subscription.Names
  unfold queueOf at hq
  rcases ht : ifTruthy s.queueName with _ | queueName
  · rw [ht, Option.none_or, ifTruthy_eq_some] at hq
    obtain ⟨hq, hne⟩ := hq
    obtain rfl := Option.some.inj hq
    exact h.exclusive hne
  · rw [ht, Option.some_or] at hq
    exact (Option.some.inj hq).symm

/-- A queue that is consumed and has the name the subscription was given is its queue. -/
theorem Recorded.queueOf_eq {g : RabbitMqGateway} (h : g.Recorded)
    {s : Subscription} {queue : String} (hc : g.hasConsumer queue = true) (hn : s.Names queue) :
    g.queueOf s = some queue := by
  unfold Subscription.Names at hn
  rcases ht : ifTruthy s.queueName with _ | queueName
  · rw [ht] at hn
    obtain rfl := h.reserved queue hc hn
    exact queueOf_exclusive ht (isSystemQueue_ne hn)
  · rw [ht] at hn
    obtain rfl : queue = queueName := hn
    exact queueOf_durable ht

/-! ## What the records are read of -/

/-- The gateways have the same records, consumers, exclusive queue and connection. -/
structure Alike (g g' : RabbitMqGateway) : Prop where
  subscriptions : g'.subscriptions = g.subscriptions
  exclusiveQueueName : g'.exclusiveQueueName = g.exclusiveQueueName
  queueConsumers : g'.queueConsumers = g.queueConsumers
  connection : g'.connection = g.connection

/-- What is established in the first is in the second. -/
structure Grows (g g' : RabbitMqGateway) (bound bound' : List Binding) : Prop where
  exclusive : g.exclusiveQueueName = "" ∨ g'.exclusiveQueueName = g.exclusiveQueueName
  bound : bound ⊆ bound'
  consumers : ∀ queue, g.hasConsumer queue = true → g'.hasConsumer queue = true

theorem Alike.hasConsumer {g g' : RabbitMqGateway} (h : Alike g g') (queue : String) :
    g'.hasConsumer queue = g.hasConsumer queue := by
  unfold RabbitMqGateway.hasConsumer
  rw [h.queueConsumers]

theorem Alike.grows {g g' : RabbitMqGateway} (h : Alike g g') (bound : List Binding) :
    Grows g g' bound bound :=
  ⟨.inr h.exclusiveQueueName, fun _ hb => hb, fun queue hc => h.hasConsumer queue ▸ hc⟩

theorem queueOf_grows {g g' : RabbitMqGateway} {bound bound' : List Binding}
    (h : Grows g g' bound bound') {s : Subscription} {queue : String}
    (hq : g.queueOf s = some queue) : g'.queueOf s = some queue := by
  unfold queueOf at hq ⊢
  rcases ht : ifTruthy s.queueName with _ | queueName
  · rw [ht, Option.none_or] at hq
    obtain ⟨-, hne⟩ := ifTruthy_eq_some.1 hq
    rcases h.exclusive with he | he
    · rw [he] at hq
      cases hq
    · rw [Option.none_or, he, hq]
  · rw [ht, Option.some_or] at hq
    rw [Option.some_or, hq]

theorem Established.grows {g g' : RabbitMqGateway} {bound bound' : List Binding}
    (h : Grows g g' bound bound') {r : EstablishedSubscription} (hr : g.Established bound r) :
    g'.Established bound' r := by
  obtain ⟨queue, hq, hgiven, hbound, hc⟩ := hr
  exact ⟨queue, queueOf_grows h hq, hgiven, fun b hb => h.bound (hbound b hb),
    h.consumers queue hc⟩

theorem fits_congr {g g' : RabbitMqGateway} {bound : List Binding}
    (h : g'.exclusiveQueueName = g.exclusiveQueueName) {s : Subscription} {kind : QueueKind}
    (hf : g.Fits bound s kind) : g'.Fits bound s kind := by
  cases kind <;> simpa [Fits, h] using hf

theorem Progress.congr {g g' : RabbitMqGateway} {bound : List Binding}
    (h : g'.exclusiveQueueName = g.exclusiveQueueName) {r : EstablishedSubscription}
    {op : Subscribing} (hp : g.Progress bound r op) : g'.Progress bound r op := by
  cases op with
  | createChannel => trivial
  | assertExchange kind => exact ⟨fits_congr h hp.1, hp.2⟩
  | assertQueue kind => exact ⟨fits_congr h hp.1, hp.2⟩
  | bindQueue kind queue =>
    refine ⟨fits_congr h hp.1, ?_⟩
    cases kind <;> simpa [Binds, h] using hp.2
  | prefetch queue => simpa [Progress, queueOf, h] using hp
  | consume queue => simpa [Progress, queueOf, h] using hp

theorem Recorded.alike {g g' : RabbitMqGateway} (h : Alike g g')
    (hg : g.Recorded) : g'.Recorded := by
  refine ⟨?_, ?_, ?_, fun queue hc => ?_, fun queue hc hsys => ?_, ?_⟩
  · rw [h.subscriptions]
    exact hg.distinct
  · rw [h.subscriptions]
    exact hg.valid
  · rw [h.subscriptions]
    exact hg.named
  · rw [h.subscriptions]
    exact hg.consumed queue (h.hasConsumer queue ▸ hc)
  · rw [h.exclusiveQueueName]
    exact hg.reserved queue (h.hasConsumer queue ▸ hc) hsys
  · rw [h.exclusiveQueueName]
    exact hg.exclusive

/-! ## `#subscribe` -/

theorem assertTopology_progress (g : RabbitMqGateway) (bound : List Binding)
    {r : EstablishedSubscription} (hv : r.Valid) :
    g.Progress bound r (g.assertTopology r.toSubscription) := by
  unfold assertTopology
  split
  · rename_i ht
    split_ifs with he
    · exact ⟨⟨ht, he⟩, by simp⟩
    · exact ⟨⟨ht, he⟩, rfl⟩
  · rename_i queue ht
    split_ifs with hd
    · exact ⟨hv.1 hd, by simp⟩
    · exact ⟨⟨queue, ht, fun h => absurd h hd⟩, by simp⟩

theorem findSubscription_eq_none {g : RabbitMqGateway} {key : SubscriptionKey} :
    g.findSubscription key = none ↔ ∀ r ∈ g.subscriptions, r.key ≠ key := by
  simp [findSubscription]

/-- With a connection, a subscription that is not there is recorded and an operation awaited. -/
theorem startSubscribe_recorded {g : RabbitMqGateway} {r : EstablishedSubscription}
    (hc : g.connection.isSome = true) (hv : r.Valid) (hf : ∀ x ∈ g.subscriptions, x.key ≠ r.key)
    (bound : List Binding) :
    ∃ channel op, g.startSubscribe r =
        ({ g with subscriptions := g.subscriptions ++ [r] }, some (channel, op))
      ∧ g.Progress bound r op := by
  obtain ⟨n, hn⟩ := Option.isSome_iff_exists.1 hc
  have hdead : (r.hasDeadLetterQueue && (ifTruthy r.queueName).isNone) = false := by
    rcases hd : r.hasDeadLetterQueue with _ | _
    · rfl
    · simpa [Option.isNone_eq_false_iff] using hv.1 hd
  unfold startSubscribe
  rw [findSubscription_eq_none.2 hf]
  simp only [Option.isSome_none, Bool.false_eq_true, if_false, hdead]
  rcases hl : g.queueChannels.lookup (r.queueName.getD "") with _ | channel
  · exact ⟨n, .createChannel, by simp [hn], trivial⟩
  · refine ⟨channel, _, rfl, ?_⟩
    exact (assertTopology_progress _ bound hv).congr rfl

theorem setQueueGivenName_subscriptions {g : RabbitMqGateway} {l : List EstablishedSubscription}
    {r : EstablishedSubscription} (hd : (g.subscriptions.map (·.key)).Nodup)
    (hl : g.subscriptions = l ++ [r]) (queue : String) :
    (g.setQueueGivenName r.toSubscription queue).subscriptions =
      l ++ [{ r with queueGivenName := some queue }] := by
  have hne : ∀ x ∈ l, x.key ≠ r.key := by
    rw [hl, List.map_append, List.nodup_append] at hd
    exact fun x hx => hd.2.2 _ (List.mem_map_of_mem hx) _ (List.mem_singleton_self _)
  show g.subscriptions.map _ = _
  rw [hl, List.map_append, List.map_singleton, if_pos rfl]
  congr 1
  exact (List.map_congr_left fun x hx => if_neg (hne x hx)).trans (List.map_id' l)

/-- The record gets the name of its queue. -/
theorem Recorded.setQueueGivenName {g : RabbitMqGateway} (h : g.Recorded)
    {l : List EstablishedSubscription} {r : EstablishedSubscription}
    (hl : g.subscriptions = l ++ [r]) {queue : String}
    (hq : g.queueOf r.toSubscription = some queue) :
    (g.setQueueGivenName r.toSubscription queue).Recorded := by
  have hs := setQueueGivenName_subscriptions h.distinct hl queue
  have hcases : ∀ {x}, x ∈ (g.setQueueGivenName r.toSubscription queue).subscriptions →
      x ∈ l ∨ x = { r with queueGivenName := some queue } := by
    intro x hx
    rw [hs] at hx
    simpa using hx
  have hr : r ∈ g.subscriptions := by simp [hl]
  have hmem : ∀ x ∈ l, x ∈ g.subscriptions := fun x hx => by simp [hl, hx]
  refine ⟨?_, fun x hx => ?_, fun x hx q hn => ?_, fun q hc => ?_, h.reserved, h.exclusive⟩
  · rw [hs, List.map_append]
    have hd := h.distinct
    rw [hl, List.map_append] at hd
    exact hd
  · rcases hcases hx with hx | rfl
    · exact h.valid x (hmem x hx)
    · exact h.valid r hr
  · rcases hcases hx with hx | rfl
    · exact h.named x (hmem x hx) q hn
    · obtain rfl := Option.some.inj hn
      exact h.names hq
  · rw [hs]
    obtain ⟨x, hx, hn⟩ := h.consumed q hc
    rw [hl] at hx
    rcases List.mem_append.1 hx with hx | hx
    · exact ⟨x, List.mem_append_left _ hx, hn⟩
    · -- the name of a queue that is consumed is the one it has now
      obtain rfl := List.mem_singleton.1 hx
      have hq' := h.queueOf_eq hc (h.named x hr q hn)
      obtain rfl : queue = q := Option.some.inj (hq.symm.trans hq')
      exact ⟨_, List.mem_append_right _ (List.mem_singleton_self _), rfl⟩

/-- Where `#subscribe` is with its record. -/
def At (g : RabbitMqGateway) (bound : List Binding) (r : EstablishedSubscription) :
    Outcome Subscribing → Prop
  | .awaits op => g.Progress bound r op
  | .returned => g.Established bound r
  | .threw => False

/-- `#subscribe` went on with the last record. -/
structure Advanced (g : RabbitMqGateway) (bound : List Binding) (l : List EstablishedSubscription)
    (s : Subscription) (bound' : List Binding) (result : RabbitMqGateway × Outcome Subscribing) :
    Prop where
  recorded : result.1.Recorded
  grows : Grows g result.1 bound bound'
  record : ∃ r, result.1.subscriptions = l ++ [r] ∧ r.toSubscription = s
    ∧ result.1.At bound' r result.2

theorem Grows.comp {g₁ g₂ g₃ : RabbitMqGateway} {b₁ b₂ b₃ : List Binding}
    (h : Grows g₁ g₂ b₁ b₂) (h' : Grows g₂ g₃ b₂ b₃) : Grows g₁ g₃ b₁ b₃ := by
  refine ⟨?_, List.Subset.trans h.bound h'.bound,
    fun queue hc => h'.consumers queue (h.consumers queue hc)⟩
  rcases h.exclusive with he | he
  · exact .inl he
  · rw [← he]
    exact h'.exclusive

theorem Advanced.of_grows {g g' : RabbitMqGateway} {b b' b'' : List Binding}
    {l : List EstablishedSubscription} {s : Subscription}
    {result : RabbitMqGateway × Outcome Subscribing} (h : Grows g g' b b')
    (ha : Advanced g' b' l s b'' result) : Advanced g b l s b'' result :=
  ⟨ha.recorded, h.comp ha.grows, ha.record⟩

/-- The queue is bound: the record is established, or its consumer is to come. -/
theorem queueBound_advanced {g : RabbitMqGateway} {bound : List Binding} (h : g.Recorded)
    {l : List EstablishedSubscription} {r : EstablishedSubscription}
    (hl : g.subscriptions = l ++ [r]) {queue : String}
    (hq : g.queueOf r.toSubscription = some queue) (hb : ∀ b ∈ r.bindings queue, b ∈ bound)
    (hok : g.hasConsumer queue = false → ∀ limit ∈ r.concurrentLimit,
      (assertNonNegativeInteger limit "options.concurrentLimit").isOk = true) :
    Advanced g bound l r.toSubscription bound (g.queueBound r.toSubscription queue) := by
  have hs := setQueueGivenName_subscriptions h.distinct hl queue
  refine ⟨h.setQueueGivenName hl hq, ⟨.inr rfl, fun _ hb => hb, fun _ hc => hc⟩, _, hs, rfl, ?_⟩
  unfold queueBound assertConsumer
  simp only
  split_ifs with hc
  · exact ⟨queue, hq, rfl, hb, hc⟩
  · rcases hlim : r.concurrentLimit with _ | limit
    · exact ⟨hq, rfl, hb⟩
    · have hok := hok (Bool.eq_false_iff.2 hc) limit hlim
      rcases ha : assertNonNegativeInteger limit "options.concurrentLimit" with _ | ok
      · rw [ha] at hok
        cases hok
      · simp only [ha]
        exact ⟨hq, rfl, hb⟩

theorem grows_bound (g : RabbitMqGateway) (bound new : List Binding) :
    Grows g g bound (bound ++ new) :=
  ⟨.inr rfl, List.subset_append_left bound new, fun _ hc => hc⟩

/-- The broker gave the exclusive queue its name. -/
theorem Recorded.setExclusiveQueueName {g : RabbitMqGateway} (h : g.Recorded)
    (he : g.exclusiveQueueName = "") {queue : String} (hq : isSystemQueue queue = true) :
    ({ g with exclusiveQueueName := queue } : RabbitMqGateway).Recorded := by
  refine ⟨h.distinct, h.valid, h.named, h.consumed, fun q hc hsys => ?_, fun _ => hq⟩
  have hq' := h.reserved q hc hsys
  rw [he] at hq'
  exact absurd hq' (isSystemQueue_ne hsys)

theorem hasConsumer_cons {g : RabbitMqGateway} {queue q : String} {channel : ℕ} :
    ({ g with queueConsumers := (queue, channel) :: g.queueConsumers } : RabbitMqGateway).hasConsumer
      q = true ↔ q = queue ∨ g.hasConsumer q = true := by
  simp [hasConsumer_iff, @eq_comm _ q]

/-- The queue of a record gets a consumer. -/
theorem Recorded.consume {g : RabbitMqGateway} (h : g.Recorded) {r : EstablishedSubscription}
    (hr : r ∈ g.subscriptions) {queue : String} (hq : g.queueOf r.toSubscription = some queue)
    (hn : r.queueGivenName = some queue) (channel : ℕ) :
    ({ g with queueConsumers := (queue, channel) :: g.queueConsumers } :
      RabbitMqGateway).Recorded := by
  refine ⟨h.distinct, h.valid, h.named, fun q hc' => ?_, fun q hc' hsys => ?_, h.exclusive⟩
  · rcases hasConsumer_cons.1 hc' with rfl | hc'
    · exact ⟨r, hr, hn⟩
    · exact h.consumed q hc'
  · rcases hasConsumer_cons.1 hc' with rfl | hc'
    · unfold queueOf at hq
      rcases ht : ifTruthy r.queueName with _ | queueName
      · rw [ht, Option.none_or, ifTruthy_eq_some] at hq
        exact (Option.some.inj hq.1).symm
      · -- no durable queue has a name of the broker's
        rw [ht, Option.some_or] at hq
        obtain rfl := Option.some.inj hq
        have hv := (h.valid r hr).2 queueName ht
        rw [hsys] at hv
        cases hv
    · exact h.reserved q hc' hsys

/-- `#subscribe` awaits the next operation. -/
theorem advanced_awaits {g g' : RabbitMqGateway} {bound : List Binding} (h : g.Recorded)
    (ha : Alike g g') {l : List EstablishedSubscription} {r : EstablishedSubscription}
    (hl : g.subscriptions = l ++ [r]) {op : Subscribing} (hp : g.Progress bound r op) :
    Advanced g bound l r.toSubscription bound (g', .awaits op) :=
  ⟨h.alike ha, ha.grows bound, r, ha.subscriptions.trans hl, rfl, hp.congr ha.exclusiveQueueName⟩

theorem bindings_of_deadLetter {s : Subscription} {queue : String} {bound : List Binding}
    (h : s.hasDeadLetterQueue = true → s.deadLetterBinding queue ∈ bound) :
    ∀ b ∈ s.bindings queue, b ∈ bound ++ [s.binding queue] := by
  intro b hb
  unfold Subscription.bindings at hb
  rcases List.mem_append.1 hb with hb | hb
  · split_ifs at hb with hd
    · rw [List.mem_singleton.1 hb]
      exact List.mem_append_left _ (h hd)
    · cases hb
  · exact List.mem_append_right _ hb

/-- A subscription without a queue name has no dead letter queue. -/
theorem bindings_exclusive {s : Subscription} (hv : s.Valid) (ht : ifTruthy s.queueName = none)
    {queue : String} {bound : List Binding} :
    ∀ b ∈ s.bindings queue, b ∈ bound ++ [s.binding queue] := by
  refine bindings_of_deadLetter fun hd => ?_
  have hsome := hv.1 hd
  rw [ht] at hsome
  cases hsome

theorem assertQueue_progress {g : RabbitMqGateway} {bound : List Binding}
    {r : EstablishedSubscription} {kind : QueueKind} {name : String}
    (hf : g.Fits bound r.toSubscription kind) (hne : kind ≠ .existing)
    (ht : Subscribing.takes r.toSubscription name (.assertQueue kind) = true) :
    g.Progress bound r (.bindQueue kind
      (if requestedName r.toSubscription kind = "" then name
        else requestedName r.toSubscription kind)) := by
  refine ⟨hf, ?_⟩
  cases kind with
  | deadLetter => exact if_neg (by simp [requestedName])
  | durable =>
    obtain ⟨queue, hq, -⟩ := hf
    have hq' := (ifTruthy_eq_some.1 hq).2
    exact if_neg (by simpa [requestedName, hq] using hq')
  | exclusive => simpa [Binds, requestedName, Subscribing.takes] using ht
  | existing => exact absurd rfl hne

theorem bindQueue_advanced {g : RabbitMqGateway} {bound : List Binding} (h : g.Recorded)
    {l : List EstablishedSubscription} {r : EstablishedSubscription}
    (hl : g.subscriptions = l ++ [r]) {kind : QueueKind} {queue : String}
    (hp : g.Progress bound r (.bindQueue kind queue))
    (hlim : g.Limits r.toSubscription (.bindQueue kind queue)) (channel : ℕ) (name : String) :
    Advanced g bound l r.toSubscription
      (bound ++ Subscribing.binds r.toSubscription (.bindQueue kind queue))
      (g.advance r.toSubscription channel name (.bindQueue kind queue)) := by
  obtain ⟨hf, hb⟩ := hp
  have hv : r.Valid := h.valid r (by simp [hl])
  refine Advanced.of_grows (grows_bound g bound
    (Subscribing.binds r.toSubscription (.bindQueue kind queue))) ?_
  cases kind with
  | deadLetter =>
    refine advanced_awaits h ⟨rfl, rfl, rfl, rfl⟩ hl ?_
    obtain ⟨queueName, hq⟩ := Option.isSome_iff_exists.1 hf
    refine ⟨⟨queueName, hq, fun _ => List.mem_append_right _ ?_⟩, by simp⟩
    obtain rfl : queue = requestedName r.toSubscription .deadLetter := hb
    simp [Subscribing.binds, Subscription.deadLetterBinding, requestedName, hq]
  | durable =>
    obtain ⟨queueName, hq, hd⟩ := hf
    have hreq : requestedName r.toSubscription .durable = queueName := by simp [requestedName, hq]
    obtain rfl : queue = queueName := Eq.trans hb hreq
    show Advanced _ _ _ _ _ (g.queueBound r.toSubscription (requestedName r.toSubscription .durable))
    rw [hreq]
    exact queueBound_advanced h hl (queueOf_durable hq) (bindings_of_deadLetter hd) hlim
  | exclusive =>
    obtain ⟨ht, he⟩ := hf
    have hgrows : Grows g { g with exclusiveQueueName := queue }
        (bound ++ Subscribing.binds r.toSubscription (.bindQueue .exclusive queue))
        (bound ++ Subscribing.binds r.toSubscription (.bindQueue .exclusive queue)) :=
      ⟨.inl he, fun _ hb => hb, fun _ hc => hc⟩
    refine Advanced.of_grows hgrows ?_
    exact queueBound_advanced (h.setExclusiveQueueName he hb) hl
      (queueOf_exclusive ht (isSystemQueue_ne hb)) (bindings_exclusive hv ht) hlim
  | existing =>
    obtain ⟨ht, he⟩ := hf
    obtain rfl : queue = g.exclusiveQueueName := hb
    exact queueBound_advanced h hl (queueOf_exclusive ht he) (bindings_exclusive hv ht) hlim

/-- The operation is over, and `#subscribe` goes on. -/
theorem advance_advanced {g : RabbitMqGateway} {bound : List Binding} (h : g.Recorded)
    {l : List EstablishedSubscription} {r : EstablishedSubscription}
    (hl : g.subscriptions = l ++ [r]) {op : Subscribing}
    (hp : g.Progress bound r op) {name : String} (ht : op.takes r.toSubscription name = true)
    (hlim : g.Limits r.toSubscription op) (channel : ℕ) :
    Advanced g bound l r.toSubscription (bound ++ op.binds r.toSubscription)
      (g.advance r.toSubscription channel name op) := by
  have hv : r.Valid := h.valid r (by simp [hl])
  cases op with
  | createChannel =>
    simp only [Subscribing.binds, List.append_nil]
    have ha : Alike g { g with
        queueChannels := (r.queueName.getD "", channel) :: g.queueChannels } := ⟨rfl, rfl, rfl, rfl⟩
    exact advanced_awaits h ha hl ((assertTopology_progress _ bound hv).congr rfl)
  | assertExchange kind =>
    simp only [Subscribing.binds, List.append_nil]
    exact advanced_awaits h ⟨rfl, rfl, rfl, rfl⟩ hl hp
  | assertQueue kind =>
    simp only [Subscribing.binds, List.append_nil]
    exact advanced_awaits h ⟨rfl, rfl, rfl, rfl⟩ hl (assertQueue_progress hp.1 hp.2 ht)
  | bindQueue kind queue => exact bindQueue_advanced h hl hp hlim channel name
  | prefetch queue =>
    simp only [Subscribing.binds, List.append_nil]
    exact advanced_awaits h ⟨rfl, rfl, rfl, rfl⟩ hl hp
  | consume queue =>
    simp only [Subscribing.binds, List.append_nil]
    obtain ⟨hq, hn, hb⟩ := hp
    refine ⟨h.consume (by simp [hl]) hq hn channel, ⟨.inr rfl, fun _ hb => hb, fun q hc' => ?_⟩,
      r, hl, rfl, queue, hq, hn, hb, ?_⟩
    · exact hasConsumer_cons.2 (.inr hc')
    · exact hasConsumer_cons.2 (.inl rfl)

end RabbitMqGateway

end NodeCqrs
