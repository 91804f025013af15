import Mathlib.Data.List.Nodup
import NodeCqrs.RabbitMq.Confirms

/-!
# What a settled `publish` says

A call that has not come to the channel is as it began (`Inv`), and one that has is settled by the
report on its message, unless the channel's write buffer was full: then it rejects, and the message
is under way (`settles_iff`).
-/

namespace NodeCqrs

namespace RabbitMqConfirms

variable {s s' : Sys} {p : Published}

/-- The call resolves if and only if the broker has confirmed its message, and rejects only if the
message was not handed over or is reported to have failed, so that it may be published again. -/
structure Published.Settles (p : Published) : Prop where
  resolved_iff : p.promise = .resolved ↔ p.report = some .confirmed
  rejected : p.promise = .rejected → p.handed = false ∨ p.report = some .failed
  not_confirmed : p.promise = .rejected → p.report ≠ some .confirmed

/-- No message is handed to a channel whose write buffer is full. -/
def Buffered (s : Sys) : Action → Prop
  | .done i published => s.hands i → published
  | .gateway _ | .publish _ | .failed _ | .callback _ _ => True

instance : DecidablePred (Buffered s) := fun a => by
  cases a <;> unfold Buffered <;> infer_instance

structure Inv (s : Sys) : Prop where
  settles : ∀ p ∈ s.published, p.Settles
  length : s.underWay.length = s.publishing.calls.length
  nodup : s.underWay.Nodup
  fresh : ∀ n ∈ s.underWay, s.published[n]? = some {}

namespace Published

theorem settles_fresh : Settles {} := by
  constructor <;> simp

theorem settles_reject : (reject {}).Settles := by
  constructor <;> simp [reject]

theorem settles_hand_iff (published : Bool) : (hand {} published).Settles ↔ published := by
  constructor
  · intro h
    by_contra hp
    rcases h.rejected (by simp [hand, hp]) with hh | hr
    · exact absurd hh (by simp [hand])
    · exact absurd hr (by simp [hand])
  · rintro rfl
    constructor <;> simp [hand]

/-- A message is reported on once. -/
theorem Settles.callback (h : p.Settles) (hp : p.handed) (hr : p.report = none) (report : Report) :
    (p.callback report).Settles := by
  have hres : p.promise ≠ .resolved := fun hpr => by simpa [hr] using h.resolved_iff.1 hpr
  have hrej : p.promise ≠ .rejected := fun hpr => by simpa [hp, hr] using h.rejected hpr
  have hpending : p.promise = .pending := by
    cases hpr : p.promise with
    | pending => rfl
    | resolved => exact absurd hpr hres
    | rejected => exact absurd hpr hrej
  cases report <;> constructor <;> simp [Published.callback, hpending]

end Published

/-- The call at a place is over, or waits for the callback. -/
theorem Inv.ends (h : Inv s) {publishing : RabbitMqPublish.Sys} {i : ℕ}
    (hi : i < s.publishing.calls.length)
    (hc : publishing.calls.length = s.publishing.calls.length - 1) {f : Published → Published} :
    ∃ n, s.underWay[i]? = some n ∧ s.published[n]? = some {}
      ∧ ({ s with publishing }.ends i f).published = s.published.set n (f {})
      ∧ ((f {}).Settles → Inv ({ s with publishing }.ends i f)) := by
  obtain ⟨n, hn⟩ : ∃ n, s.underWay[i]? = some n :=
    ⟨_, List.getElem?_eq_getElem (h.length ▸ hi)⟩
  have hp := h.fresh n (List.mem_of_getElem? hn)
  have hset : s.published.modify n f = s.published.set n (f {}) := by
    rw [List.modify_eq_set_getElem?, hp]
    rfl
  refine ⟨n, hn, hp, by simp [Sys.ends, hn, hset], fun hf => ?_⟩
  have hends : { s with publishing }.ends i f
      = ⟨publishing, s.underWay.eraseIdx i, s.published.set n (f {})⟩ := by
    simp [Sys.ends, hn, hset]
  rw [hends]
  refine ⟨fun p hp' => ?_, ?_, h.nodup.sublist (List.eraseIdx_sublist ..), fun m hm => ?_⟩
  · rcases List.mem_or_eq_of_mem_set hp' with hp' | rfl
    · exact h.settles p hp'
    · exact hf
  · rw [List.length_eraseIdx, h.length, if_pos hi, hc]
  · have hne : n ≠ m := by
      rintro rfl
      obtain ⟨j, hj, hjn⟩ := List.mem_eraseIdx_iff_getElem?.1 hm
      obtain ⟨hlt, -⟩ := List.getElem?_eq_some_iff.1 hjn
      exact hj ((List.getElem?_inj hlt h.nodup).1 (hjn.trans hn.symm))
    rw [List.getElem?_set_ne hne]
    exact h.fresh m (List.mem_of_mem_eraseIdx hm)

theorem Inv.gateway (h : Inv s) {publishing : RabbitMqPublish.Sys}
    (hc : publishing.calls.length = s.publishing.calls.length) : Inv { s with publishing } :=
  ⟨h.settles, h.length.trans hc.symm, h.nodup, h.fresh⟩

theorem Inv.publish (h : Inv s) (exchange : String) : Inv (s.publish exchange) := by
  have hfresh : ∀ n ∈ s.underWay, ∀ p, (s.published ++ [p])[n]? = some ({} : Published) := by
    intro n hn p
    obtain ⟨hlt, -⟩ := List.getElem?_eq_some_iff.1 (h.fresh n hn)
    rw [List.getElem?_append_left hlt, h.fresh n hn]
  have hsettles : ∀ p : Published, p.Settles → ∀ q ∈ s.published ++ [p], q.Settles := by
    intro p hp q hq
    rcases List.mem_append.1 hq with hq | hq
    · exact h.settles q hq
    · exact List.mem_singleton.1 hq ▸ hp
  unfold Sys.publish
  split_ifs with hx
  · exact ⟨hsettles _ Published.settles_reject, h.length, h.nodup, fun n hn => hfresh n hn _⟩
  · have hlen : (s.publishing.publish exchange).calls.length = s.publishing.calls.length + 1 := by
      unfold RabbitMqPublish.Sys.publish
      rw [if_neg hx]
      split_ifs <;> simp
    have hnew : s.published.length ∉ s.underWay := fun hn => by
      have hlt := (List.getElem?_eq_some_iff.1 (h.fresh _ hn)).1
      exact Nat.lt_irrefl _ hlt
    refine ⟨hsettles _ Published.settles_fresh, ?_, ?_, fun n hn => ?_⟩
    · simp [h.length, hlen]
    · exact h.nodup.append (List.nodup_singleton _) (by simpa using hnew)
    · rcases List.mem_append.1 hn with hn | hn
      · exact hfresh n hn _
      · simp [List.mem_singleton.1 hn]

/-- A call that goes on waits again, or comes to the executor and is over. -/
theorem calls_done {publishing : RabbitMqPublish.Sys} {i : ℕ}
    (hst : RabbitMqPublish.step s.publishing (.done i) = some publishing) :
    i < s.publishing.calls.length ∧ publishing.calls.length
      = if s.executes i then s.publishing.calls.length - 1 else s.publishing.calls.length := by
  obtain ⟨call, hi, hst⟩ := Option.bind_eq_some_iff.1 hst
  have hlt := (List.getElem?_eq_some_iff.1 hi).1
  refine ⟨hlt, ?_⟩
  have hexec : s.executes i = decide (call.awaits = .appId) := by simp [Sys.executes, hi]
  unfold RabbitMqPublish.Sys.resume at hst
  split at hst
  · next hawaits =>
    obtain ⟨connection, -, rfl⟩ := Option.map_eq_some_iff.1 hst
    simp [hexec, hawaits, RabbitMqPublish.Sys.await]
  · next hawaits =>
    split_ifs at hst
    obtain rfl := Option.some.inj hst
    simp [hexec, hawaits, RabbitMqPublish.Sys.await, RabbitMqPublish.Sys.issue]
  · next hawaits =>
    split_ifs at hst
    obtain rfl := Option.some.inj hst
    simp [hexec, hawaits, RabbitMqPublish.Sys.await]
  · next hawaits =>
    split at hst <;> obtain rfl := Option.some.inj hst <;>
      simp [hexec, hawaits, RabbitMqPublish.Sys.over, RabbitMqPublish.Sys.issue,
        List.length_eraseIdx, hlt]

theorem inv_step {a : Action} (h : Inv s) (ha : Buffered s a) (hst : step s a = some s') :
    Inv s' := by
  cases a with
  | gateway action =>
    obtain ⟨publishing, hpub, rfl⟩ := Option.map_eq_some_iff.1 hst
    obtain ⟨gateway, -, rfl⟩ := Option.map_eq_some_iff.1 hpub
    exact h.gateway rfl
  | publish exchange =>
    obtain rfl := Option.some.inj hst
    exact h.publish exchange
  | done i published =>
    obtain ⟨publishing, hpub, rfl⟩ := Option.map_eq_some_iff.1 hst
    obtain ⟨hi, hlen⟩ := calls_done hpub
    dsimp only
    split_ifs with hh hx
    · rw [if_pos (Bool.and_eq_true_iff.1 hh).1] at hlen
      obtain ⟨n, -, -, -, hends⟩ := h.ends hi hlen
      exact hends ((Published.settles_hand_iff published).2 (ha hh))
    · rw [if_pos hx] at hlen
      obtain ⟨n, -, -, -, hends⟩ := h.ends hi hlen
      exact hends Published.settles_reject
    · rw [if_neg hx] at hlen
      exact h.gateway hlen
  | failed i =>
    obtain ⟨publishing, hpub, rfl⟩ := Option.map_eq_some_iff.1 hst
    obtain ⟨call, hi, rfl⟩ := Option.map_eq_some_iff.1 hpub
    have hlt := (List.getElem?_eq_some_iff.1 hi).1
    have hlen : (s.publishing.over i).calls.length = s.publishing.calls.length - 1 := by
      simp [RabbitMqPublish.Sys.over, List.length_eraseIdx, hlt]
    obtain ⟨n, -, -, -, hends⟩ := h.ends hlt hlen
    exact hends Published.settles_reject
  | callback n report =>
    obtain ⟨p, hn, hst⟩ := Option.bind_eq_some_iff.1 hst
    split_ifs at hst with hp
    obtain rfl := Option.some.inj hst
    obtain ⟨hh, hr⟩ := Bool.and_eq_true_iff.1 hp
    have hsettles := h.settles p (List.mem_of_getElem? hn)
    refine ⟨fun q hq => ?_, h.length, h.nodup, fun m hm => ?_⟩
    · rcases List.mem_or_eq_of_mem_set hq with hq | rfl
      · exact h.settles q hq
      · exact hsettles.callback hh (Option.isNone_iff_eq_none.1 hr) report
    · have hne : n ≠ m := by
        rintro rfl
        rw [h.fresh n hm] at hn
        obtain rfl := Option.some.inj hn
        exact absurd hh (by simp)
      exact (List.getElem?_set_ne hne).trans (h.fresh m hm)

/-- A message handed to a channel whose write buffer is full is under way, and its call rejects. -/
theorem buffered_of_settles {a : Action} (h : Inv s) (hst : step s a = some s')
    (hs : ∀ p ∈ s'.published, p.Settles) : Buffered s a := by
  cases a with
  | done i published =>
    intro hh
    obtain ⟨publishing, hpub, rfl⟩ := Option.map_eq_some_iff.1 hst
    obtain ⟨hi, hlen⟩ := calls_done hpub
    rw [if_pos (Bool.and_eq_true_iff.1 hh).1] at hlen
    obtain ⟨n, -, hn, hpub, -⟩ := h.ends hi hlen (f := (·.hand published))
    dsimp only at hs
    rw [if_pos hh, hpub] at hs
    refine (Published.settles_hand_iff published).1 (hs _ ?_)
    exact List.mem_of_getElem? (List.getElem?_set_self (List.getElem?_eq_some_iff.1 hn).1)
  | gateway | publish | failed | callback => trivial

/-- At each point of a run the promises of all its `publish` calls stand as the reports on their
messages do, if and only if no message has been handed to a channel whose write buffer is full. -/
theorem settles_iff {l : List Action} (h : machine.run {} l = some s) :
    (∀ l' t, l' <+: l → machine.run {} l' = some t → ∀ p ∈ t.published, p.Settles)
      ↔ machine.Along Buffered {} l :=
  Machine.along_iff (P := fun t => ∀ p ∈ t.published, p.Settles) (fun _ hi => hi.settles)
    (fun _ _ _ hi ha hst => inv_step hi ha hst)
    (fun _ _ _ hi hst hs => buffered_of_settles hi hst hs)
    ⟨by simp, rfl, List.nodup_nil, by simp⟩ h

section Runs

/-- Two calls share a channel, the second message is confirmed and the connection is lost before
the first one is. -/
theorem settles_two : ∃ s, machine.run {} [.publish "a", .publish "a",
      .gateway (.reply 0 (.done "")), .gateway .wake, .done 0 true, .done 0 true, .done 0 true,
      .done 1 true, .done 1 true, .done 1 true, .done 0 true, .done 0 true, .callback 1 .confirmed,
      .gateway .lost, .callback 0 .failed] = some s
    ∧ s.published.map (·.promise) = [.rejected, .resolved] ∧ ∀ p ∈ s.published, p.Settles := by
  have hrun : machine.run {} [.publish "a", .publish "a",
      .gateway (.reply 0 (.done "")), .gateway .wake, .done 0 true, .done 0 true, .done 0 true,
      .done 1 true, .done 1 true, .done 1 true, .done 0 true, .done 0 true, .callback 1 .confirmed,
      .gateway .lost, .callback 0 .failed] = some _ := rfl
  exact ⟨_, hrun, rfl, (settles_iff hrun).2 (by decide) _ _ (List.prefix_refl _) hrun⟩

/-- The write buffer is full. The message is sent all the same, and confirmed. -/
theorem not_settles : ¬ ∀ l s, machine.run {} l = some s → ∀ p ∈ s.published, p.Settles := by
  intro hall
  have h := hall [.publish "a", .gateway (.reply 0 (.done "")), .done 0 true, .done 0 true,
    .done 0 true, .done 0 false, .callback 0 .confirmed] _ rfl _ (List.mem_singleton_self _)
  exact absurd (h.resolved_iff.2 rfl) (by decide)

end Runs

end RabbitMqConfirms

end NodeCqrs
