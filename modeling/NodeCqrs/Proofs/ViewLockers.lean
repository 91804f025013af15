import Mathlib.Tactic.Common
import NodeCqrs.ViewLockers

/-!
# Waiters of the view lockers

`unlock()` resolves the marker that is there. `lock()` of an `InMemoryLock` waits until there is
none; that of the other lockers installs another in its place, and a promise of the one before is
never resolved. So each is resolved by the next `unlock()` as long as those lockers are not locked
while a promise is out (`resolved_iff`).
-/

namespace NodeCqrs

namespace ViewLockers

variable {locker : Locker} {s s' : Markers}

/-- The promises that `once` has returned are resolved by an `unlock()` made now. -/
def Honoured (s : Markers) : Prop := ∀ d ∈ s.promised, d ∈ (unlock s).resolved

/-- `lock()` is not called while a promise that `once` has returned of the marker is unresolved, or
it waits for the marker. -/
def Orderly (locker : Locker) (s : Markers) : Action → Prop
  | .lock => locker = .inMemory ∨ ∀ d ∈ s.lockMarker, d ∉ s.promised
  | .unlock | .once | .resume => True

/-- A promise is resolved, or is that of the marker, which is not. -/
structure Inv (s : Markers) : Prop where
  promised : ∀ d ∈ s.promised, d ∈ s.resolved ∨ s.lockMarker = some d
  marker : ∀ d, s.lockMarker = some d → d < s.deferreds ∧ d ∉ s.resolved
  resolved : ∀ d ∈ s.resolved, d < s.deferreds

theorem ready_unlock (s : Markers) : ready (unlock s) := by
  unfold ready unlock
  rcases hm : s.lockMarker with _ | d
  · simpa using hm
  · rfl

theorem Inv.honoured (hi : Inv s) : Honoured s := by
  intro d hd
  unfold unlock
  split
  · next d' hm =>
    rcases hi.promised d hd with hr | hd'
    · exact List.mem_append_left _ hr
    · rw [hm] at hd'
      exact List.mem_append_right _ (List.mem_singleton.2 (Option.some.inj hd').symm)
  · next hm => exact (hi.promised d hd).resolve_right (by simp [hm])

theorem Inv.once (hi : Inv s) : Inv (once s) := by
  unfold ViewLockers.once
  split
  · next d hm =>
    refine ⟨fun d' hd' => ?_, hi.marker, hi.resolved⟩
    rcases List.mem_append.1 hd' with hd' | hd'
    · exact hi.promised d' hd'
    · exact .inr (List.mem_singleton.1 hd' ▸ hm)
  · exact hi

theorem Inv.unlock (hi : Inv s) : Inv (unlock s) := by
  have hh := hi.honoured
  unfold Honoured ViewLockers.unlock at hh
  unfold ViewLockers.unlock
  split at hh
  · next d hm =>
    refine ⟨fun d' hd' => .inl (hh d' hd'), by simp, fun d' hd' => ?_⟩
    rcases List.mem_append.1 hd' with hd' | hd'
    · exact hi.resolved d' hd'
    · exact List.mem_singleton.1 hd' ▸ (hi.marker d hm).1
  · exact hi

/-- Another marker takes the place of one with no promise out. -/
theorem Inv.install (hi : Inv s) (hnone : ∀ d ∈ s.lockMarker, d ∉ s.promised) :
    Inv (install s) where
  promised d hd := .inl ((hi.promised d hd).resolve_right fun hm => hnone d hm hd)
  marker d hd := by
    obtain rfl := Option.some.inj hd
    exact ⟨Nat.lt_succ_self _, fun hr => Nat.lt_irrefl _ (hi.resolved _ hr)⟩
  resolved d hd := Nat.lt_succ_of_lt (hi.resolved d hd)

theorem Inv.inMemoryLock (hi : Inv s) : Inv (InMemoryLock.lock s) := by
  unfold InMemoryLock.lock ready
  split_ifs with hr
  · exact hi.install fun d hd => by simp_all
  · exact ⟨hi.once.promised, hi.once.marker, hi.once.resolved⟩

theorem lock_of_ne (hl : locker ≠ .inMemory) (s : Markers) : locker.lock s = install s := by
  cases locker <;> first | rfl | exact absurd rfl hl

theorem inv_step {a : Action} (hi : Inv s) (hC : Orderly locker s a)
    (hst : step locker s a = some s') : Inv s' := by
  cases a with
  | lock =>
    obtain rfl := Option.some.inj hst
    by_cases hl : locker = .inMemory
    · rw [hl]
      exact hi.inMemoryLock
    · rw [lock_of_ne hl]
      exact hi.install (hC.resolve_left hl)
  | unlock =>
    obtain rfl := Option.some.inj hst
    exact hi.unlock
  | once =>
    obtain rfl := Option.some.inj hst
    exact hi.once
  | resume =>
    unfold step at hst
    split_ifs at hst
    obtain rfl := Option.some.inj hst
    exact Inv.inMemoryLock ⟨hi.promised, hi.marker, hi.resolved⟩

/-- A promise of a marker that was replaced stays unresolved. -/
theorem orderly_of_honoured {a : Action} (hi : Inv s) (hst : step locker s a = some s')
    (hh : Honoured s') : Orderly locker s a := by
  cases a with
  | lock =>
    by_cases hl : locker = .inMemory
    · exact .inl hl
    · refine .inr fun d hm hd => ?_
      obtain rfl := Option.some.inj hst
      obtain ⟨hlt, hr⟩ := hi.marker d hm
      have hres := hh d (by rw [lock_of_ne hl]; exact hd)
      rw [lock_of_ne hl] at hres
      rcases List.mem_append.1 hres with hres | hres
      · exact hr hres
      · exact Nat.ne_of_lt hlt (List.mem_singleton.1 hres)
  | unlock | once | resume => trivial

/-- All along a run the promises that `once` has returned are resolved by the next `unlock()`, after
which the locker is ready, if and only if it is an `InMemoryLock` or no `lock()` call is made while
such a promise, of the last `lock()`, is unresolved. -/
theorem resolved_iff {l : List Action} (h : (machine locker).run {} l = some s) :
    (∀ l' t, l' <+: l → (machine locker).run {} l' = some t →
        ready (unlock t) ∧ ∀ d ∈ t.promised, d ∈ (unlock t).resolved)
      ↔ (machine locker).Along (Orderly locker) {} l :=
  Machine.along_iff (P := fun t => ready (unlock t) ∧ Honoured t)
    (fun t hi => ⟨ready_unlock t, hi.honoured⟩) (fun _ _ _ hi hC hst => inv_step hi hC hst)
    (fun _ _ _ hi hst hh => orderly_of_honoured hi hst hh.2)
    ⟨by simp, by simp, by simp⟩ h

section Runs

instance (locker : Locker) (s : Markers) : ∀ a, Decidable (Orderly locker s a)
  | .lock => inferInstanceAs (Decidable (_ ∨ _))
  | .unlock | .once | .resume => inferInstanceAs (Decidable True)

theorem resolved_sqlite : ∃ s, (machine .sqlite).run {}
      [.lock, .once, .once, .unlock, .lock, .once] = some s
    ∧ s.promised = [0, 0, 1]
    ∧ ∀ l' t, l' <+: [Action.lock, .once, .once, .unlock, .lock, .once] →
      (machine .sqlite).run {} l' = some t →
        ready (unlock t) ∧ ∀ d ∈ t.promised, d ∈ (unlock t).resolved := by
  have hrun : (machine .sqlite).run {} [.lock, .once, .once, .unlock, .lock, .once] = some _ := rfl
  exact ⟨_, hrun, rfl, (resolved_iff hrun).2 (by decide)⟩

/-- A second `restore()` locks while an event waits. -/
theorem not_resolved_relocked : ¬ ∀ locker l s, (machine locker).run {} l = some s →
    ∀ d ∈ s.promised, d ∈ (unlock s).resolved := by
  intro hall
  have hres := hall .sqlite [.lock, .once, .lock]
    { deferreds := 2, lockMarker := some 1, promised := [0] } rfl
  exact absurd hres (by decide)

end Runs

end ViewLockers

end NodeCqrs
