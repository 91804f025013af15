import NodeCqrs.AggregatesCache
import NodeCqrs.Proofs.MapAssertable

/-!
# The cache entries of the calls in flight

As long as no `acquire` rejects, the cache counts each aggregate once for each `execute` call in
flight, and has nothing for one that has none (`released`). A call whose `acquire` rejects ends
before the block that releases its entry (`released_fails`).
-/

namespace NodeCqrs

namespace AggregatesCache

variable {I : Type} [DecidableEq I] [Truthy I] {s : AggregatesCache I} {c : ℕ}
  {aggregateId : Option I} {await : ExecuteAwait}

omit [DecidableEq I] in
/-- The call is in flight, for the aggregate. -/
def InFlight (s : AggregatesCache I) (id : I) (c : ℕ) : Prop :=
  ∃ aggregateId await, s.calls c = some (aggregateId, await)
    ∧ aggregateId.filter (truthy ·) = some id

omit [DecidableEq I] in
/-- The cache counts the calls in flight. -/
def Counts (s : AggregatesCache I) : Prop := s.aggregatesCache.Counted (InFlight s)

omit [DecidableEq I] in
theorem inFlight_setCall (id : I) (c' : ℕ) :
    InFlight (s.setCall c aggregateId await) id c' ↔
      if c' = c then aggregateId.filter (truthy ·) = some id else InFlight s id c' := by
  by_cases h : c' = c <;> simp [InFlight, setCall, h]

omit [DecidableEq I] in
theorem inFlight_clearCall (id : I) (c' : ℕ) :
    InFlight (s.clearCall c) id c' ↔ c' ≠ c ∧ InFlight s id c' := by
  by_cases h : c' = c <;> simp [InFlight, clearCall, h]

omit [DecidableEq I] in
theorem inFlight_of_calls (hc : s.calls c = some (aggregateId, await)) (id : I) :
    InFlight s id c ↔ aggregateId.filter (truthy ·) = some id := by
  simp [InFlight, hc]

theorem calls_resetCacheEntry {call : Option I × ExecuteAwait} (hc : s.calls c = some call) :
    (s.resetCacheEntry aggregateId).calls c = some call := by
  unfold resetCacheEntry
  split <;> exact hc

namespace Counts

omit [DecidableEq I] in
/-- A call goes on to another await. -/
theorem setCall (h : Counts s) {await' : ExecuteAwait}
    (hc : s.calls c = some (aggregateId, await')) (await : ExecuteAwait) :
    Counts (s.setCall c aggregateId await) := by
  refine MapAssertable.Counted.congr h fun id c' => ?_
  rw [inFlight_setCall]
  split_ifs with hcc
  · rw [hcc, inFlight_of_calls hc]
  · exact Iff.rfl

theorem resetCacheEntry (h : Counts s) (hc : s.calls c = some (aggregateId, await)) :
    Counts (s.resetCacheEntry aggregateId) := by
  simp only [AggregatesCache.resetCacheEntry]
  split
  · exact h
  · rename_i id hid
    exact MapAssertable.Counted.setLazy h () ((inFlight_of_calls hc id).2 hid)

theorem getAggregate (h : Counts s) (hc : s.calls c = some (aggregateId, await)) :
    Counts (s.getAggregate c aggregateId) := by
  simp only [AggregatesCache.getAggregate]
  split
  · exact h.setCall hc .aggregate
  · rename_i id hid
    have hg : Counts { s with
        aggregatesCache := (s.aggregatesCache.get restoreAggregate id s.nextPromise).1
        nextPromise := (s.aggregatesCache.get restoreAggregate id s.nextPromise).2.1 } :=
      MapAssertable.Counted.get h restoreAggregate id s.nextPromise
    exact hg.setCall hc .aggregate

theorem finish (h : Counts s) (hc : s.calls c = some (aggregateId, await)) :
    Counts (s.finish c aggregateId) := by
  simp only [AggregatesCache.finish, releaseCacheEntry]
  split
  · rename_i hid
    refine MapAssertable.Counted.congr h fun id c' => ?_
    rw [inFlight_clearCall]
    refine and_iff_right_of_imp ?_
    rintro hf rfl
    rw [inFlight_of_calls hc, hid] at hf
    cases hf
  · rename_i id hid
    refine MapAssertable.Counted.release h ((inFlight_of_calls hc id).2 hid) fun id' c' => ?_
    rw [inFlight_clearCall]
    refine and_congr_left fun hf => not_congr (iff_self_and.2 ?_)
    rintro rfl
    have hid' : aggregateId.filter (truthy ·) = some id' := (inFlight_of_calls hc id').1 hf
    exact Option.some.inj (hid'.symm.trans hid)

theorem execute (h : Counts s) (hc : s.calls c = none) {await : ExecuteAwait} :
    Counts ((s.allocateCacheEntry aggregateId).setCall c aggregateId await) := by
  simp only [allocateCacheEntry]
  split
  · rename_i hid
    refine MapAssertable.Counted.congr h fun id c' => ?_
    rw [inFlight_setCall]
    split_ifs with hcc
    · simp [hcc, InFlight, hc, hid]
    · exact Iff.rfl
  · rename_i id hid
    refine MapAssertable.Counted.assert h restoreAggregate () s.nextPromise (c := c) ?_
      fun id' c' => ?_
    · simp [InFlight, hc]
    · rw [inFlight_setCall]
      split_ifs with hcc
      · simp [hcc, InFlight, hc, hid, eq_comm]
      · simp [hcc, InFlight]

end Counts

omit [DecidableEq I] [Truthy I] in
theorem of_resume {s' : AggregatesCache I} {next : Option I → AggregatesCache I}
    (h : s.resume c await next = some s') :
    ∃ aggregateId, s.calls c = some (aggregateId, await) ∧ s' = next aggregateId := by
  simp only [resume] at h
  split at h
  · rename_i aggregateId await' hc
    split_ifs at h with ha
    exact ⟨aggregateId, ha ▸ hc, (Option.some.inj h).symm⟩
  · cases h

/-- `acquire` does not reject. -/
def Acquires (_ : AggregatesCache I) : Action I → Prop
  | .acquireRejects _ => False
  | _ => True

theorem counts_step {s' : AggregatesCache I} {a : Action I} (h : Counts s) (hC : Acquires s a)
    (hst : step s a = some s') : Counts s' := by
  cases a with
  | execute c aggregateId =>
    simp only [step] at hst
    split_ifs at hst with hc hid <;> obtain rfl := Option.some.inj hst
    · exact h.execute (by simpa using hc)
    · have hs : Counts ((s.allocateCacheEntry aggregateId).setCall c aggregateId .aggregate) :=
        h.execute (by simpa using hc)
      have hid : aggregateId.filter (truthy ·) = none := Option.not_isSome_iff_eq_none.1 hid
      simpa only [getAggregate, hid] using hs
  | acquired c =>
    obtain ⟨aggregateId, hc, rfl⟩ := of_resume hst
    exact h.getAggregate hc
  | acquireRejects c => exact absurd hC not_false
  | restored c resolved =>
    obtain ⟨aggregateId, hc, rfl⟩ := of_resume hst
    cases resolved with
    | true => exact h.setCall hc .handle
    | false => exact h.finish hc
  | handled c events =>
    obtain ⟨aggregateId, hc, rfl⟩ := of_resume hst
    rcases events with _ | _ | n
    · exact (h.resetCacheEntry hc).finish (calls_resetCacheEntry hc)
    · exact h.finish hc
    · exact h.setCall hc .dispatch
  | dispatched c =>
    obtain ⟨aggregateId, hc, rfl⟩ := of_resume hst
    exact h.finish hc
  | dispatchRejects c decision =>
    obtain ⟨aggregateId, hc, rfl⟩ := of_resume hst
    have hr := h.resetCacheEntry hc
    cases decision with
    | no => exact hr.finish (calls_resetCacheEntry hc)
    | yes => exact hr.getAggregate (calls_resetCacheEntry hc)
    | ignore => exact hr.setCall (calls_resetCacheEntry hc) .forceDispatch
  | forceDispatched c resolved =>
    obtain ⟨aggregateId, hc, rfl⟩ := of_resume hst
    exact h.finish hc

omit [DecidableEq I] in
theorem counts_init : Counts ({} : AggregatesCache I) where
  usage id := ⟨[], List.nodup_nil, fun c => by simp [InFlight], rfl⟩
  has_iff id := by simp [MapAssertable.has]

theorem reach_counts (h : machine.ReachIf Acquires s) : Counts s :=
  h.invariant (fun _ h0 => h0 ▸ counts_init) fun _ _ _ hs hC hst => counts_step hs hC hst

/-- An aggregate is counted once for each call in flight, and the cache has nothing for an aggregate
without any. -/
theorem released (h : machine.ReachIf Acquires s) (id : I) :
    (∃ l : List ℕ, l.Nodup ∧ (∀ c, c ∈ l ↔ InFlight s id c)
      ∧ s.aggregatesCache.usageCounter id = l.length)
    ∧ ((∀ c, ¬ InFlight s id c) →
      s.aggregatesCache.entries id = none ∧ s.aggregatesCache.factories id = none) :=
  ⟨(reach_counts h).usage id, (reach_counts h).empty_of_unused⟩

instance (s : AggregatesCache I) : ∀ a, Decidable (Acquires s a)
  | .acquireRejects _ => isFalse not_false
  | .execute .. | .acquired _ | .restored .. | .handled .. | .dispatched _
  | .dispatchRejects .. | .forceDispatched .. => isTrue trivial

/-- Two calls overlap; the first retries, the second fails to handle its command. -/
theorem released_overlapping : ∃ s : AggregatesCache String,
    machine.run {} [.execute 0 (some "a"), .execute 1 (some "a"), .acquired 0, .restored 0 true,
      .handled 0 (some 2), .dispatchRejects 0 .yes, .restored 0 true, .handled 0 (some 1),
      .dispatched 0, .acquired 1, .restored 1 true, .handled 1 none] = some s
    ∧ s.aggregatesCache.entries "a" = none ∧ s.aggregatesCache.factories "a" = none := by
  obtain ⟨s, hs⟩ : ∃ s, machine.run ({} : AggregatesCache String) [.execute 0 (some "a"),
      .execute 1 (some "a"), .acquired 0, .restored 0 true, .handled 0 (some 2),
      .dispatchRejects 0 .yes, .restored 0 true, .handled 0 (some 1), .dispatched 0, .acquired 1,
      .restored 1 true, .handled 1 none] = some s := ⟨_, rfl⟩
  have h := (Machine.ReachIf.init (C := Acquires) rfl).run (by decide) hs
  refine ⟨s, hs, (released h "a").2 fun c => ?_⟩
  rintro ⟨aggregateId, await, hc, -⟩
  cases hs
  match c with
  | 0 | 1 => cases hc
  | c + 2 => cases hc

/-- The restored aggregate of a call whose `acquire` rejected stays. -/
theorem released_fails : ¬ ∀ s : AggregatesCache String, machine.Reach s →
    (∀ c, ¬ InFlight s "a" c) →
      s.aggregatesCache.entries "a" = none ∧ s.aggregatesCache.factories "a" = none := by
  intro hall
  obtain ⟨s, hs⟩ : ∃ s, machine.run ({} : AggregatesCache String)
      [.execute 0 (some "a"), .acquireRejects 0] = some s := ⟨_, rfl⟩
  have h := Machine.reach_of_run rfl hs
  cases hs
  refine absurd (hall _ h fun c => ?_).1 (by decide)
  rintro ⟨aggregateId, await, hc, -⟩
  match c with
  | 0 => cases hc
  | c + 1 => cases hc

end AggregatesCache

end NodeCqrs
