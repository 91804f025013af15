import Mathlib.Tactic.Common
import NodeCqrs.Sqlite.EventLocker

/-!
# What the queries of `SqliteEventLocker` change

Trying an event marks none as processed, marking one marks it alone, and only `markAsLastEvent`
moves the checkpoint. An event that is refused is processed already or still in progress
(`tryMarkAsProjecting_refused`).
-/

namespace NodeCqrs

namespace SqliteEventLocker

variable {K E : Type} [DecidableEq K] {ttl now : ℤ} {s s' : SqliteEventLocker K E} {k : K}

theorem processed_setEventLock {r : EventLockRow} (k' : K) :
    (s.setEventLock k r).Processed k'
      ↔ if k' = k then r.processedAt ≠ none else s.Processed k' := by
  unfold Processed setEventLock
  by_cases h : k' = k
  · simp [h]
  · simp [h]

theorem eventLock_setEventLock {r : EventLockRow} (k' : K) :
    (s.setEventLock k r).eventLock k' = if k' = k then some r else s.eventLock k' := by
  simp [setEventLock, Function.update_apply]

/-- Trying an event marks none as processed, and may add the event's row. -/
theorem tryMarkAsProjecting_spec (s : SqliteEventLocker K E) (ttl now : ℤ) (k : K) :
    (∀ k', (s.tryMarkAsProjecting ttl now k).1.Processed k' ↔ s.Processed k')
    ∧ (∀ k' ≠ k, (s.tryMarkAsProjecting ttl now k).1.eventLock k' = s.eventLock k')
    ∧ (s.tryMarkAsProjecting ttl now k).1.getLastEvent = s.getLastEvent := by
  unfold tryMarkAsProjecting
  rcases hr : s.eventLock k with _ | r
  · refine ⟨fun k' => ?_, fun k' hk => ?_, rfl⟩
    · rw [processed_setEventLock]
      split_ifs with hk
      · simp [hk, Processed, hr]
      · rfl
    · simp [eventLock_setEventLock, hk]
  · simp only []
    split_ifs with h
    · refine ⟨fun k' => ?_, fun k' hk => ?_, rfl⟩
      · rw [processed_setEventLock]
        split_ifs with hk
        · simp [hk, Processed, hr, h.1]
        · rfl
      · simp [eventLock_setEventLock, hk]
    · exact ⟨fun _ => Iff.rfl, fun _ _ => rfl, rfl⟩

/-- An event is refused when it is processed or in progress. -/
theorem tryMarkAsProjecting_refused (h : (s.tryMarkAsProjecting ttl now k).2 = false) :
    s.Processed k ∨ s.InProgress ttl now k := by
  unfold tryMarkAsProjecting at h
  rcases hr : s.eventLock k with _ | r <;> simp only [hr] at h
  · simp at h
  · split_ifs at h with hc
    by_cases hp : r.processedAt = none
    · exact .inr ⟨r, hr, hp, by simpa [hp] using hc⟩
    · exact .inl ⟨r, hr, hp⟩

theorem markAsProjected_spec (h : s.markAsProjected now k = some s') :
    (∀ k', s'.Processed k' ↔ k' = k ∨ s.Processed k')
    ∧ (∀ k', s'.eventLock k' ≠ none → s.eventLock k' ≠ none)
    ∧ s'.getLastEvent = s.getLastEvent := by
  unfold markAsProjected at h
  rcases hr : s.eventLock k with _ | r <;> simp only [hr] at h
  · simp at h
  · split_ifs at h with hp
    simp only [Option.some.injEq] at h
    subst h
    refine ⟨fun k' => ?_, fun k' => ?_, rfl⟩
    · by_cases hk : k' = k
      · simp [processed_setEventLock, hk]
      · simp [processed_setEventLock, hk]
    · by_cases hk : k' = k
      · simp [hk, hr]
      · simp [eventLock_setEventLock, hk]

omit [DecidableEq K] in
@[simp] theorem getLastEvent_markAsLastEvent (s : SqliteEventLocker K E) (e : E) :
    (s.markAsLastEvent e).getLastEvent = some e := rfl

end SqliteEventLocker

end NodeCqrs
