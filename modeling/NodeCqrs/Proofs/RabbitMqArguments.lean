import Mathlib.Data.List.Rotate
import NodeCqrs.RabbitMq.CallsInTurn

/-!
# What a rejected `subscribe` leaves

A subscription is recorded before its dead letter queue and its limit are looked at, and stays
recorded when they are what is wrong with it. A call rejected for its arguments leaves no trace if
and only if it is rejected before that, by the checks of `subscribe` or because the subscription is
recorded already (`recorded_iff`). What is left is in the way of the same subscription with other
options, and of the next connection.
-/

namespace NodeCqrs

open RabbitMqGateway

namespace CallsInTurn

namespace Gateway

variable {g g' : Gateway} {s : Established} {name : String}

/-- The subscriptions that are recorded, without the queue names they were given. -/
def recorded (g : Gateway) : List Established :=
  g.subscriptions.map fun r => { r with queueGivenName := none }

theorem recorded_setQueueGivenName (g : Gateway) (s : Established) (queue : String) :
    (g.setQueueGivenName s queue).recorded = g.recorded := by
  unfold recorded setQueueGivenName
  rw [List.map_map]
  refine List.map_congr_left fun r _ => ?_
  dsimp only [Function.comp]
  split_ifs <;> rfl

theorem recorded_assertQueueChannel {key : String} (h : g.assertQueueChannel key = .ok g') :
    g'.recorded = g.recorded := by
  unfold assertQueueChannel at h
  split at h
  · cases h
    rfl
  · split_ifs at h
    cases h
    rfl

theorem recorded_assertQueue (g : Gateway) (s : Established) (name : String) :
    (g.assertQueue s name).1.recorded = g.recorded := by
  unfold assertQueue
  split
  · split_ifs <;> rfl
  · rfl

theorem recorded_assertConsumer (g : Gateway) (s : Established) (queue : String) :
    (g.assertConsumer s queue).1.recorded = g.recorded := by
  unfold assertConsumer
  split_ifs
  · rfl
  · split
    · split <;> rfl
    · rfl

/-- A subscription that is not recorded yet is, whatever comes of it. -/
theorem recorded_establish (g : Gateway) (s : Established) (name : String) :
    (g.establish s name).1.recorded =
      if (g.findSubscription s.key).isSome then g.recorded
      else g.recorded ++ [{ s with queueGivenName := none }] := by
  have hpush : { g with subscriptions := g.subscriptions ++ [s] }.recorded
      = g.recorded ++ [{ s with queueGivenName := none }] := by simp [recorded]
  unfold establish
  dsimp only
  split_ifs
  · rfl
  · exact hpush
  · split
    · exact hpush
    · next g₁ hg₁ =>
      rw [recorded_assertConsumer, recorded_setQueueGivenName, recorded_assertQueue,
        recorded_assertQueueChannel hg₁, hpush]

theorem isSome_findSubscription {key : SubscriptionKey} :
    (g.findSubscription key).isSome ↔ key ∈ g.recorded.map (·.key) := by
  rw [findSubscription, List.find?_isSome, recorded, List.map_map, List.mem_map]
  exact exists_congr fun r => and_congr_right fun _ => decide_eq_true_iff

theorem findSubscription_congr {key : SubscriptionKey} (h : g'.recorded = g.recorded) :
    (g'.findSubscription key).isSome = (g.findSubscription key).isSome := by
  rw [Bool.eq_iff_iff, isSome_findSubscription, isSome_findSubscription, h]

/-- A dead letter queue is asked for, for a queue that is not durable. -/
def NoDeadLetters (s : Subscription) : Prop :=
  (s.hasDeadLetterQueue && (ifTruthy s.queueName).isNone) = true

theorem establish_ok {result : SubscribeResult} (h : g.establish s name = (g', .ok result)) :
    (g.findSubscription s.key).isSome = false ∧ ¬ NoDeadLetters s.toSubscription := by
  unfold establish at h
  dsimp only at h
  split_ifs at h with hf hd
  · cases h
  · cases h
  · exact ⟨Bool.eq_false_iff.2 hf, hd⟩

/-- A restore that does not throw takes each subscription once and puts it back. -/
theorem recorded_restore : ∀ {n : ℕ} {g g' : Gateway},
    restoreSubscriptions name n g = (g', .ok ()) → g'.recorded = g.recorded.rotate n
  | 0, g, g', h => by
    cases h
    exact (List.rotate_zero _).symm
  | n + 1, g, g', h => by
    unfold restoreSubscriptions at h
    split at h
    · next hs =>
      rw [recorded_restore h]
      simp [recorded, hs]
    · next s rest hs =>
      split at h
      · next g₁ result he =>
        have h₁ := recorded_establish { g with subscriptions := rest } s name
        rw [(establish_ok he).1, he] at h₁
        rw [recorded_restore h, h₁]
        simp [recorded, hs]
      · cases h

theorem recorded_connect (h : g.connect name = (g', .ok ())) : g'.recorded = g.recorded := by
  rw [recorded_restore h]
  have hlen : g.subscriptions.length = g.recorded.length := (List.length_map _).symm
  exact (congrArg (List.rotate _) hlen).trans (List.rotate_length _)

/-- What a call rejected for its arguments leaves. -/
theorem recorded_rejected {err : SubscribeError} (h : g.subscribe s name = (g', .error err))
    (herr : err.ofArguments) :
    (s.check ≠ .ok () ∨ (g.findSubscription s.key).isSome) ∧ g'.recorded = g.recorded
      ∨ ¬ (s.check ≠ .ok () ∨ (g.findSubscription s.key).isSome)
        ∧ g'.recorded = g.recorded ++ [{ s with queueGivenName := none }] := by
  have hestablish : ∀ g₁ : Gateway, g₁.recorded = g.recorded → (g₁.establish s name).1 = g' →
      (g.findSubscription s.key).isSome ∧ g'.recorded = g.recorded
        ∨ ¬ (g.findSubscription s.key).isSome
          ∧ g'.recorded = g.recorded ++ [{ s with queueGivenName := none }] := by
    rintro g₁ hg₁ rfl
    rw [recorded_establish, hg₁, ← findSubscription_congr hg₁]
    split_ifs with hf
    · exact .inl ⟨hf, rfl⟩
    · exact .inr ⟨hf, rfl⟩
  unfold subscribe at h
  split at h
  · next message hc =>
    cases h
    exact .inl ⟨.inl (by simp [hc]), rfl⟩
  · next hc =>
    rw [or_iff_right (not_not.2 hc)]
    split_ifs at h
    · exact hestablish g rfl (congrArg Prod.fst h)
    · split at h
      · cases h
        cases herr
      · next g₁ hg₁ => exact hestablish g₁ (recorded_connect hg₁) (congrArg Prod.fst h)

/-- What is recorded after a call rejected for its arguments is what was, if and only if one of the
checks of `subscribe` rejects it, or the subscription is recorded. -/
theorem recorded_iff {err : SubscribeError} (h : g.subscribe s name = (g', .error err))
    (herr : err.ofArguments) :
    g'.recorded = g.recorded ↔ s.check ≠ .ok () ∨ (g.findSubscription s.key).isSome := by
  rcases recorded_rejected h herr with ⟨hc, hr⟩ | ⟨hc, hr⟩
  · exact iff_of_true hr hc
  · exact iff_of_false (by simp [hr]) hc

/-- What is left is in the way of the same subscription with valid options. -/
theorem refused_of_left {err : SubscribeError} (h : g.subscribe s name = (g', .error err))
    (herr : err.ofArguments) (hleft : g'.recorded ≠ g.recorded) {s' : Established}
    (hkey : s'.key = s.key) (name' : String) :
    g'.establish s' name' = (g', .error (.exists s')) := by
  rcases recorded_rejected h herr with ⟨-, hr⟩ | ⟨-, hr⟩
  · exact absurd hr hleft
  · have hf : (g'.findSubscription s'.key).isSome := by
      rw [isSome_findSubscription, hr, hkey]
      simp [Subscription.key]
    unfold establish
    rw [if_pos hf]

theorem restore_deadLetters : ∀ {n : ℕ} {g g' : Gateway},
    restoreSubscriptions name n g = (g', .ok ()) → n ≤ g.recorded.length →
      ∀ r ∈ g.recorded.take n, ¬ NoDeadLetters r.toSubscription
  | 0, g, g', _, _ => by simp
  | n + 1, g, g', h, hn => by
    unfold restoreSubscriptions at h
    split at h
    · next hs => simp [recorded, hs] at hn
    · next s rest hs =>
      split at h
      · next g₁ result he =>
        obtain ⟨hf, hd⟩ := establish_ok he
        have h₁ := recorded_establish { g with subscriptions := rest } s name
        rw [hf, he] at h₁
        have hrec : g.recorded = { s with queueGivenName := none } :: { g with
            subscriptions := rest }.recorded := by simp [recorded, hs]
        rw [hrec, List.length_cons] at hn
        have hn := Nat.le_of_succ_le_succ hn
        intro r hr
        rw [hrec, List.take_succ_cons] at hr
        rcases List.mem_cons.1 hr with rfl | hr
        · exact hd
        · refine restore_deadLetters h ?_ r ?_
          · rw [h₁]
            simpa using Nat.le_succ_of_le hn
          · rw [h₁]
            simpa [List.take_append_of_le_length hn] using hr
      · cases h

/-- A dead letter queue that is left on record fails every connection. -/
theorem connect_deadLetters {r : Established} (hr : r ∈ g.recorded)
    (hd : NoDeadLetters r.toSubscription) (name : String) :
    ∀ g', g.connect name ≠ (g', .ok ()) := by
  intro g' h
  have hlen : g.recorded.length = g.subscriptions.length := List.length_map _
  refine restore_deadLetters h (Nat.le_of_eq hlen.symm) r ?_ hd
  show r ∈ g.recorded.take g.subscriptions.length
  rwa [← hlen, List.take_length]

section Runs

/-- A gateway that has the subscription. -/
def subscribed : Gateway where
  connected := true
  subscriptions := [{ exchange := "e", queueName := some "q", handler := 0 }]

/-- The subscription with a limit that is none. -/
def limited : Established where
  exchange := "e"
  queueName := some "q"
  handler := 0
  concurrentLimit := some (-1)

/-- It is there already, and is restored first where the gateway is not connected. With another queue
it is not there, and stays when its limit is refused. -/
theorem recorded_again :
    (∃ g', { subscribed with connected := false }.subscribe limited "amq.gen" =
        (g', .error (.exists limited))
      ∧ g'.connected = true ∧ g'.recorded = { subscribed with connected := false }.recorded)
    ∧ ∃ g' err, subscribed.subscribe { limited with queueName := some "r" } "amq.gen" =
        (g', .error err)
      ∧ err.ofArguments ∧ g'.recorded ≠ subscribed.recorded := by
  constructor
  · obtain ⟨g', h, hc⟩ : ∃ g', { subscribed with connected := false }.subscribe limited "amq.gen" =
      (g', .error (.exists limited)) ∧ g'.connected = true := ⟨_, rfl, rfl⟩
    exact ⟨g', h, hc, (recorded_iff h rfl).2 (.inr rfl)⟩
  · obtain ⟨g', err, h, herr⟩ : ∃ g' err,
      subscribed.subscribe { limited with queueName := some "r" } "amq.gen" = (g', .error err)
        ∧ err.ofArguments := ⟨_, _, rfl, rfl⟩
    refine ⟨g', err, h, herr, fun hr => ?_⟩
    rcases (recorded_iff h herr).1 hr with hcheck | hfind
    · exact absurd hcheck (by decide)
    · exact absurd hfind (by decide)

/-- A dead letter queue is asked for without a queue name. -/
theorem not_recorded : ¬ ∀ (g : Gateway) (s : Established) name g' err,
    g.subscribe s name = (g', .error err) → err.ofArguments → g'.recorded = g.recorded := by
  intro hall
  have h := hall { connected := true }
    { exchange := "test-exchange", handler := 0, deadLetterQueue := some true } "amq.gen" _ _ rfl
    rfl
  exact absurd h (by decide)

end Runs

end Gateway

end CallsInTurn

end NodeCqrs
