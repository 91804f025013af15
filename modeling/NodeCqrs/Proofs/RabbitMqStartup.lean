import NodeCqrs.Proofs.RabbitMqDispatch
import NodeCqrs.RabbitMq.Startup

/-!
# Deliveries while the handlers are subscribed

A message is passed to its handlers if each of their subscriptions has its queue when the message is
delivered (`Ready`). The first subscription of a queue starts its consumer, and the others are not
in the table of handlers then.
-/

namespace NodeCqrs

namespace RabbitMqGateway

theorem callHandlers_all {ownAppId : String} {msg : ConsumeMessage} :
    ∀ l : List EstablishedSubscription, callHandlers ownAppId (fun _ => false) msg l =
      (l.filter fun s => !s.ignores ownAppId msg, .acked)
  | [] => rfl
  | s :: l => by
    unfold callHandlers
    rw [callHandlers_all l]
    rcases hi : s.ignores ownAppId msg with _ | _ <;> simp [hi]

namespace Startup

variable (subscriptions : List Subscription) (queue ownAppId : String)

/-- Every handler of the subscriptions for the type is called, unless it ignores the message as the
gateway's own, and the message is acknowledged. -/
def Handled (d : Delivery) : Prop :=
  (∀ r ∈ subscriptions, r.handles d.msg.type = true → r.ignores ownAppId d.msg = false →
      ∃ x ∈ d.called, x.toSubscription = r)
    ∧ d.finalized = .acked

/-- A subscription for the type has the queue, and so has every one whose handler is to be called. -/
def HasHandlers (s : Startup) (msg : ConsumeMessage) : Prop :=
  (isSystemQueue queue = true ∨
      ∃ x ∈ s.sys.gateway.subscriptions, x.queueGivenName = some queue ∧ x.handles msg.type = true)
    ∧ ∀ r ∈ subscriptions, r.handles msg.type = true → r.ignores ownAppId msg = false →
      ∃ x ∈ s.sys.gateway.subscriptions, x.queueGivenName = some queue ∧ x.toSubscription = r

/-- The message that is delivered has its handlers in the table. -/
def Ready (s : Startup) (a : Action) : Prop :=
  a = .deliver → ∀ msg ∈ s.backlog.head?, HasHandlers subscriptions queue ownAppId s msg

variable {subscriptions queue ownAppId}

theorem handled_iff {s : Startup} {msg : ConsumeMessage} :
    Handled subscriptions ownAppId (delivery queue ownAppId s msg) ↔
      HasHandlers subscriptions queue ownAppId s msg := by
  have hmem : ∀ x, x ∈ getHandlers s.sys.gateway.subscriptions queue msg.type ↔
      x ∈ s.sys.gateway.subscriptions ∧ x.queueGivenName = some queue
        ∧ x.handles msg.type = true := fun x => by simp [getHandlers]
  have hcalled : (delivery queue ownAppId s msg).called
      = (getHandlers s.sys.gateway.subscriptions queue msg.type).filter
          fun x => !x.ignores ownAppId msg := by
    show (consume _ _ _ _ _).1 = _
    rw [consume_fst, callHandlers_all]
  have hacked : (delivery queue ownAppId s msg).finalized = .acked ↔
      isSystemQueue queue = true ∨
        ∃ x ∈ s.sys.gateway.subscriptions, x.queueGivenName = some queue
          ∧ x.handles msg.type = true := by
    show (consume _ _ _ _ _).2 = _ ↔ _
    unfold consume
    dsimp only
    rw [callHandlers_all]
    split_ifs with h
    · obtain ⟨hnil, hsys⟩ := Bool.and_eq_true_iff.1 h
      have hnil := of_decide_eq_true hnil
      refine iff_of_false nofun ?_
      rintro (hq | ⟨x, hx⟩)
      · rw [hq] at hsys
        cases hsys
      · rw [← hmem x, hnil] at hx
        cases hx
    · refine iff_of_true rfl ?_
      by_cases hq : isSystemQueue queue = true
      · exact .inl hq
      · have hne : getHandlers s.sys.gateway.subscriptions queue msg.type ≠ [] :=
          fun hnil => h (by simp [hnil, hq])
        obtain ⟨x, hx⟩ := List.exists_mem_of_ne_nil _ hne
        exact .inr ⟨x, (hmem x).1 hx⟩
  unfold Handled HasHandlers
  rw [hacked, hcalled, and_comm]
  refine and_congr_right fun _ => forall₂_congr fun r hr => ?_
  show (r.handles msg.type = true → r.ignores ownAppId msg = false → _) ↔ _
  refine forall_congr' fun hh => forall_congr' fun hi => ?_
  constructor
  · rintro ⟨x, hx, rfl⟩
    obtain ⟨hm, hq, -⟩ := (hmem x).1 (List.mem_of_mem_filter hx)
    exact ⟨x, hm, hq, rfl⟩
  · rintro ⟨x, hm, hq, rfl⟩
    exact ⟨x, List.mem_filter.2 ⟨(hmem x).2 ⟨hm, hq, hh⟩, by simp [hi]⟩, rfl⟩

/-- A step delivers the first message of the backlog, or nothing. -/
theorem step_deliveries {s s' : Startup} {a : Action} (h : step queue ownAppId s a = some s') :
    (a ≠ .deliver ∧ s'.deliveries = s.deliveries) ∨
      ∃ msg ∈ s.backlog.head?, a = .deliver ∧
        s'.deliveries = s.deliveries ++ [delivery queue ownAppId s msg] := by
  unfold step at h
  split at h
  · split at h
    · cases h
    · obtain ⟨sys, -, rfl⟩ := Option.map_eq_some_iff.1 h
      exact .inl ⟨nofun, rfl⟩
  · obtain ⟨sys, -, rfl⟩ := Option.map_eq_some_iff.1 h
    exact .inl ⟨nofun, rfl⟩
  · obtain ⟨sys, -, rfl⟩ := Option.map_eq_some_iff.1 h
    exact .inl ⟨nofun, rfl⟩
  · split at h
    · cases h
    · rename_i msg backlog hb
      split_ifs at h
      obtain rfl := Option.some.inj h
      exact .inr ⟨msg, by rw [hb]; rfl, rfl, rfl⟩

theorem step_handled_iff {s s' : Startup} {a : Action} (h : step queue ownAppId s a = some s') :
    (∀ d ∈ s'.deliveries, Handled subscriptions ownAppId d) ↔
      (∀ d ∈ s.deliveries, Handled subscriptions ownAppId d) ∧
        Ready subscriptions queue ownAppId s a := by
  rcases step_deliveries h with ⟨hne, he⟩ | ⟨msg, hmsg, rfl, he⟩
  · rw [he]
    exact (and_iff_left fun ha => absurd ha hne).symm
  · have hready : Ready subscriptions queue ownAppId s .deliver ↔
        Handled subscriptions ownAppId (delivery queue ownAppId s msg) := by
      rw [handled_iff]
      refine ⟨fun h => h rfl msg hmsg, fun h _ msg' hmsg' => ?_⟩
      obtain rfl : msg = msg' := Option.some.inj (hmsg.symm.trans hmsg')
      exact h
    rw [he, hready]
    simp only [List.mem_append, List.mem_singleton, or_imp, forall_and, forall_eq]

/-- In a run from the start of the process, every message delivered is passed to its handlers and
acknowledged if and only if each has its handlers in the table when it is delivered. -/
theorem backlog_handled_iff {backlog : List ConsumeMessage} {l : List Action} {s : Startup}
    (hrun : (machine queue ownAppId).run { unregistered := subscriptions, backlog } l = some s) :
    (∀ d ∈ s.deliveries, Handled subscriptions ownAppId d) ↔
      (machine queue ownAppId).Along (Ready subscriptions queue ownAppId)
        { unregistered := subscriptions, backlog } l :=
  (Machine.run_iff_along (P := fun s => ∀ d ∈ s.deliveries, Handled subscriptions ownAppId d)
    (fun _ _ _ ht => step_handled_iff ht) hrun).trans
      (and_iff_right fun d hd => by cases hd)

section decidable

instance (s : Startup) (msg : ConsumeMessage) :
    Decidable (HasHandlers subscriptions queue ownAppId s msg) :=
  inferInstanceAs (Decidable ((_ ∨ _) ∧ ∀ r ∈ subscriptions, _ → _ → _))

instance (s : Startup) : DecidablePred (Ready subscriptions queue ownAppId s) := fun a =>
  inferInstanceAs (Decidable (a = .deliver → ∀ msg ∈ s.backlog.head?, _))

end decidable

def created : Subscription :=
  { exchange := "e", queueName := some "q", eventType := some "created",
    deadLetterQueue := some false, handler := 1 }

def renamed : Subscription := { created with eventType := some "renamed", handler := 2 }

def twoTypes : Startup :=
  { unregistered := [created, renamed]
    backlog := [{ exchange := "e", type := "created" }, { exchange := "e", type := "renamed" }] }

/-- A message comes once its handler is subscribed, and the other once the second one is. -/
def delivered : List Action :=
  .subscribe :: List.replicate 6 (.reply 0 (.done "")) ++ [.subscribe, .deliver] ++
    List.replicate 3 (.reply 0 (.done "")) ++ [.deliver]

theorem backlog_handled_after : ∃ s, (machine "q" "app").run twoTypes delivered = some s
    ∧ s.deliveries.map (·.msg.type) = ["created", "renamed"]
    ∧ ∀ d ∈ s.deliveries, Handled [created, renamed] "app" d := by
  obtain ⟨s, hs, htypes⟩ : ∃ s, (machine "q" "app").run twoTypes delivered = some s
    ∧ s.deliveries.map (·.msg.type) = ["created", "renamed"] := ⟨_, rfl, rfl⟩
  exact ⟨s, hs, htypes, (backlog_handled_iff hs).2 (by decide)⟩

/-- Of two subscriptions of a queue, the first is established when a message for the other comes. -/
theorem backlog_rejected :
    let msg : ConsumeMessage := { exchange := "e", type := "renamed" }
    let l : List Action :=
      .subscribe :: List.replicate 6 (.reply 0 (.done "")) ++ [.subscribe, .deliver]
    renamed.handles msg.type = true
      ∧ ∃ s, (machine "q" "app").run
            { unregistered := [created, renamed], backlog := [msg] } l = some s
        ∧ s.deliveries = [{ msg, called := [], finalized := .rejected (.unhandled "q" "renamed") }] :=
  ⟨rfl, _, rfl, rfl⟩

end Startup

end RabbitMqGateway

end NodeCqrs
