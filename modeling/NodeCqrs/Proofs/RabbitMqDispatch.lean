import Mathlib.Data.List.Nodup
import NodeCqrs.RabbitMq.Subscription

/-!
# Dispatch against the bindings

The broker routes by exchange and pattern, the gateway dispatches by queue and type. A subscription
for all types or for the type of the message has a pattern that matches it; the two agree where no
other subscription is there that one of them picks.
-/

namespace NodeCqrs

open RabbitMqGateway Broker

theorem Broker.matches_self (key : String) :
    Topics.Matches ((words key).map part) (words key) := by
  refine Topics.matches_map (fun w => ?_) _
  unfold part
  split_ifs
  · trivial
  · trivial
  · exact rfl

/-- The subscription is bound with a pattern that matches what it handles. -/
theorem Subscription.matches_of_handles {s : Subscription} {eventType : String}
    (h : s.handles eventType = true) :
    Topics.Matches ((words s.pattern).map part) (words eventType) := by
  have hall : Topics.Matches ((words "#").map part) (words eventType) :=
    Topics.matches_many _
  unfold Subscription.handles at h
  unfold Subscription.pattern
  rcases ht : ifTruthy s.eventType with _ | t
  · exact hall
  · rw [ht] at h
    rcases Bool.or_eq_true_iff.1 h with hw | he
    · simp only [of_decide_eq_true hw, if_true]
      exact hall
    · obtain rfl : t = eventType := of_decide_eq_true he
      dsimp only
      split_ifs
      · exact hall
      · exact matches_self t

namespace RabbitMqGateway

section callHandlers

variable {ownAppId : String} {throws : EstablishedSubscription → Bool} {msg : ConsumeMessage}

theorem callHandlers_sublist : ∀ l : List EstablishedSubscription,
    (callHandlers ownAppId throws msg l).1.Sublist l
  | [] => .slnil
  | s :: l => by
    unfold callHandlers
    split_ifs
    · exact (callHandlers_sublist l).cons s
    · exact (List.nil_sublist l).cons_cons s
    · exact (callHandlers_sublist l).cons_cons s

theorem callHandlers_unhandled {queueGivenName type : String} :
    ∀ l : List EstablishedSubscription,
      (callHandlers ownAppId throws msg l).2 ≠ .rejected (.unhandled queueGivenName type)
  | [] => by simp [callHandlers]
  | s :: l => by
    unfold callHandlers
    split_ifs
    · exact callHandlers_unhandled l
    · simp
    · exact callHandlers_unhandled l

/-- A handler is called if its subscription does not ignore the message, and no handler called
before it throws. -/
theorem mem_callHandlers {s : EstablishedSubscription} : ∀ {l : List EstablishedSubscription},
    l.Nodup → (s ∈ (callHandlers ownAppId throws msg l).1 ↔
      s ∈ l ∧ s.ignores ownAppId msg = false ∧
        ∀ t, [t, s].Sublist l → t.ignores ownAppId msg = false → throws t = false)
  | [], _ => by simp [callHandlers]
  | x :: l, hl => by
    obtain ⟨hx, hl⟩ := List.nodup_cons.1 hl
    have ih := mem_callHandlers (s := s) hl
    have hbefore : ∀ t, [t, s].Sublist (x :: l) ↔ [t, s].Sublist l ∨ t = x ∧ s ∈ l := fun t => by
      rw [List.cons_sublist_cons', List.singleton_sublist]
    have hmem : ∀ t, [t, s].Sublist l → s ∈ l := fun t h => h.subset (by simp)
    unfold callHandlers
    split_ifs with hi ht
    · rw [ih]
      constructor
      · rintro ⟨hs, hni, hno⟩
        refine ⟨List.mem_cons_of_mem x hs, hni, fun t h hti => ?_⟩
        rcases (hbefore t).1 h with h | ⟨rfl, -⟩
        · exact hno t h hti
        · rw [hi] at hti
          cases hti
      · rintro ⟨hs, hni, hno⟩
        rcases List.mem_cons.1 hs with rfl | hs
        · rw [hi] at hni
          cases hni
        · exact ⟨hs, hni, fun t h => hno t ((hbefore t).2 (.inl h))⟩
    · rw [List.mem_singleton]
      constructor
      · rintro rfl
        refine ⟨List.mem_cons_self, Bool.eq_false_iff.2 hi, fun t h => ?_⟩
        rcases (hbefore t).1 h with h | ⟨-, h⟩
        · exact absurd (hmem t h) hx
        · exact absurd h hx
      · rintro ⟨hs, -, hno⟩
        rcases List.mem_cons.1 hs with rfl | hs
        · rfl
        · have hx' := hno x ((hbefore x).2 (.inr ⟨rfl, hs⟩)) (Bool.eq_false_iff.2 hi)
          rw [ht] at hx'
          cases hx'
    · dsimp only
      rw [List.mem_cons, ih]
      constructor
      · rintro (rfl | ⟨hs, hni, hno⟩)
        · refine ⟨List.mem_cons_self, Bool.eq_false_iff.2 hi, fun t h => ?_⟩
          rcases (hbefore t).1 h with h | ⟨-, h⟩
          · exact absurd (hmem t h) hx
          · exact absurd h hx
        · refine ⟨List.mem_cons_of_mem x hs, hni, fun t h hti => ?_⟩
          rcases (hbefore t).1 h with h | ⟨rfl, -⟩
          · exact hno t h hti
          · exact Bool.eq_false_iff.2 ht
      · rintro ⟨hs, hni, hno⟩
        rcases List.mem_cons.1 hs with rfl | hs
        · exact .inl rfl
        · exact .inr ⟨hs, hni, fun t h => hno t ((hbefore t).2 (.inl h))⟩

end callHandlers

variable (subscriptions : List EstablishedSubscription) (queueGivenName ownAppId : String)
  (throws : EstablishedSubscription → Bool) (msg : ConsumeMessage)

/-- The bindings of the subscriptions route the message to the queue. -/
def Routed : Prop :=
  ∃ s ∈ subscriptions, ∃ b ∈ s.bindings queueGivenName, b.queue = queueGivenName ∧ Routes b msg

/-- The handlers invoked are those of the subscriptions whose exchange is the one of the message and
whose pattern matches its type, and the message is not rejected for having no handler. -/
def DispatchAgrees : Prop :=
  (consume subscriptions queueGivenName ownAppId throws msg).1.Perm
      (subscriptions.filter fun s => Routes (s.binding queueGivenName) msg)
    ∧ ∀ q type, (consume subscriptions queueGivenName ownAppId throws msg).2
      ≠ .rejected (.unhandled q type)

/-- No handler called before the one of the subscription throws. -/
def Reached (s : EstablishedSubscription) : Prop :=
  ∀ t, [t, s].Sublist subscriptions → t.handles msg.type = true → t.ignores ownAppId msg = false →
    throws t = false

/-- The subscriptions that the broker has the message for are the ones for all types or for its type
by name. -/
structure Plain : Prop where
  named : ∀ s ∈ subscriptions, Routes (s.binding queueGivenName) msg → s.handles msg.type = true
  foreign : ∀ s ∈ subscriptions, Routes (s.binding queueGivenName) msg →
    s.ignores ownAppId msg = false
  reached : ∀ s ∈ subscriptions, Routes (s.binding queueGivenName) msg →
    Reached subscriptions ownAppId throws msg s
  exchange : ∀ s ∈ subscriptions, s.handles msg.type = true → s.ignores ownAppId msg = false →
    Reached subscriptions ownAppId throws msg s → s.exchange = msg.exchange

variable {subscriptions queueGivenName ownAppId throws msg}

theorem routed_binding (h : Routed subscriptions queueGivenName msg) :
    ∃ s ∈ subscriptions, Routes (s.binding queueGivenName) msg := by
  obtain ⟨s, hs, b, hb, hq, hr⟩ := h
  refine ⟨s, hs, ?_⟩
  unfold Subscription.bindings at hb
  rcases List.mem_append.1 hb with hb | hb
  · split_ifs at hb
    · obtain rfl := List.mem_singleton.1 hb
      -- the dead letter queue has a longer name
      have hlen := congrArg String.length hq
      simp [Subscription.deadLetterBinding, String.length_append] at hlen
    · cases hb
  · obtain rfl := List.mem_singleton.1 hb
    exact hr

theorem consume_fst : (consume subscriptions queueGivenName ownAppId throws msg).1
    = (callHandlers ownAppId throws msg (getHandlers subscriptions queueGivenName msg.type)).1 := by
  unfold consume
  dsimp only
  split_ifs with h
  · rw [of_decide_eq_true (Bool.and_eq_true_iff.1 h).1]
    rfl
  · rfl

theorem consume_snd (h : getHandlers subscriptions queueGivenName msg.type ≠ [])
    (q type : String) : (consume subscriptions queueGivenName ownAppId throws msg).2
      ≠ .rejected (.unhandled q type) := by
  unfold consume
  dsimp only
  rw [if_neg (by simp [h])]
  exact callHandlers_unhandled _

/-- A subscription of the queue has its handler called. -/
theorem mem_consume (hnodup : subscriptions.Nodup)
    (hshare : ∀ s ∈ subscriptions, s.queueGivenName = some queueGivenName)
    {s : EstablishedSubscription} :
    s ∈ (consume subscriptions queueGivenName ownAppId throws msg).1 ↔
      s ∈ subscriptions ∧ s.handles msg.type = true ∧ s.ignores ownAppId msg = false
        ∧ Reached subscriptions ownAppId throws msg s := by
  have hget : getHandlers subscriptions queueGivenName msg.type
      = subscriptions.filter (·.handles msg.type) :=
    List.filter_congr fun s hs => by simp [hshare s hs]
  rw [consume_fst, hget, mem_callHandlers (hnodup.filter _), List.mem_filter]
  constructor
  · rintro ⟨⟨hs, hh⟩, hi, hno⟩
    refine ⟨hs, hh, hi, fun t ht hth => hno t ?_⟩
    have hf := ht.filter (·.handles msg.type)
    rwa [List.filter_cons_of_pos (by exact hth), List.filter_cons_of_pos (by exact hh),
      List.filter_nil] at hf
  · rintro ⟨hs, hh, hi, hr⟩
    refine ⟨⟨hs, hh⟩, hi, fun t ht hti => hr t (ht.trans List.filter_sublist) ?_ hti⟩
    exact (List.mem_filter.1 (ht.subset (List.mem_cons_self ..))).2

theorem dispatch_agrees_iff (hnodup : subscriptions.Nodup)
    (hshare : ∀ s ∈ subscriptions, s.queueGivenName = some queueGivenName)
    (hrouted : Routed subscriptions queueGivenName msg) :
    DispatchAgrees subscriptions queueGivenName ownAppId throws msg ↔
      Plain subscriptions queueGivenName ownAppId throws msg := by
  have hmem : ∀ s, s ∈ (consume subscriptions queueGivenName ownAppId throws msg).1 ↔
      s ∈ subscriptions ∧ s.handles msg.type = true ∧ s.ignores ownAppId msg = false
        ∧ Reached subscriptions ownAppId throws msg s :=
    fun s => mem_consume hnodup hshare
  have hcalled : (consume subscriptions queueGivenName ownAppId throws msg).1.Nodup := by
    rw [consume_fst]
    exact ((callHandlers_sublist _).trans List.filter_sublist).nodup hnodup
  unfold DispatchAgrees
  rw [List.perm_ext_iff_of_nodup hcalled (hnodup.filter _)]
  simp only [hmem, List.mem_filter, decide_eq_true_eq]
  constructor
  · rintro ⟨h, -⟩
    refine ⟨fun s hs hr => ?_, fun s hs hr => ?_, fun s hs hr => ?_, fun s hs hh hi hr => ?_⟩
    · exact ((h s).2 ⟨hs, hr⟩).2.1
    · exact ((h s).2 ⟨hs, hr⟩).2.2.1
    · exact ((h s).2 ⟨hs, hr⟩).2.2.2
    · exact ((h s).1 ⟨hs, hh, hi, hr⟩).2.1
  · intro h
    refine ⟨fun s => ⟨fun ⟨hs, hh, hi, hr⟩ => ?_, fun ⟨hs, hr⟩ => ?_⟩, ?_⟩
    · exact ⟨hs, h.exchange s hs hh hi hr, Subscription.matches_of_handles hh⟩
    · exact ⟨hs, h.named s hs hr, h.foreign s hs hr, h.reached s hs hr⟩
    · obtain ⟨s, hs, hr⟩ := routed_binding hrouted
      refine consume_snd (List.ne_nil_of_mem (a := s) ?_)
      exact List.mem_filter.2 ⟨hs, by simp [hshare s hs, h.named s hs hr]⟩

/-- Two subscriptions of one exchange, for one type and for all. -/
theorem dispatch_agrees_one_exchange :
    let s : EstablishedSubscription :=
      { exchange := "events", queueName := some "q", eventType := some "user.created", handler := 1,
        queueGivenName := some "q" }
    let all : EstablishedSubscription := { s with eventType := none, handler := 2 }
    DispatchAgrees [s, all] "q" "app" (fun _ => false)
      { exchange := "events", type := "user.created" } := by
  refine (dispatch_agrees_iff (by decide) (by decide) ?_).2 ⟨by decide, by decide, ?_, ?_⟩
  · exact ⟨_, List.mem_cons_self, _, List.mem_append_right _ (List.mem_singleton_self _), rfl,
      by decide⟩
  · exact fun _ _ _ _ _ _ _ => rfl
  · intro s' hs _ _ _
    rcases List.mem_cons.1 hs with rfl | hs
    · rfl
    · obtain rfl := List.mem_singleton.1 hs
      rfl

/-- A message that the pattern `user.*` brings to the queue is rejected. -/
theorem pattern_rejected :
    let s : EstablishedSubscription :=
      { exchange := "events", queueName := some "q", eventType := some "user.*", handler := 1,
        queueGivenName := some "q" }
    let msg : ConsumeMessage := { exchange := "events", type := "user.created" }
    Routed [s] "q" msg ∧ ¬DispatchAgrees [s] "q" "app" (fun _ => false) msg
      ∧ (consume [s] "q" "app" (fun _ => false) msg).2
        = .rejected (.unhandled "q" "user.created") := by
  refine ⟨⟨_, List.mem_cons_self, _, List.mem_append_right _ (List.mem_singleton_self _), rfl,
    by decide⟩, fun h => h.2 "q" "user.created" (by decide), by decide⟩

end RabbitMqGateway

end NodeCqrs
