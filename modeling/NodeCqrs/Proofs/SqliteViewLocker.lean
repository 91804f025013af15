import Mathlib.Tactic.Common
import Mathlib.Data.Int.Order.Basic
import NodeCqrs.Sqlite.ViewLocker

/-!
# Mutual exclusion of `SqliteViewLocker`

The upsert of `lock()` compares the stored expiry to the requested one and not to the clock, and
the queries of `prolongLock()` and `unlock()` do not look at whose lock they write. A run in which
neither matters (`Undisturbed`) keeps the row's expiry at or past what each holder last wrote
(`Covered`), so a lock is obtained only when no other locker holds it. Without that the next
locker gets the lock a millisecond after the first (`mutualExclusion_fails`).
-/

namespace NodeCqrs

namespace SqliteViewLocker

variable {E : Type} (viewLockTtl : ℕ → ℤ)

/-- The expiry a row stores. -/
def lockedTill (row : Option (ViewLockRow E)) : Option ℤ := row.bind (·.lockedTill)

theorem upsertTableLock_changes {row : Option (ViewLockRow E)} {till : ℤ} :
    (upsertTableLock till row).2 = 1 ↔ ∀ t, lockedTill row = some t → t < till := by
  unfold upsertTableLock lockedTill
  rcases row with _ | r
  · simp
  · rcases h : r.lockedTill with _ | t
    · simp [h]
    · simp only [Option.bind_some, h, Option.some.injEq, forall_eq']
      split_ifs with ht <;> simp [ht]

theorem upsertTableLock_row {row : Option (ViewLockRow E)} {till : ℤ}
    (h : (upsertTableLock till row).2 = 1) :
    lockedTill (upsertTableLock till row).1 = some till := by
  unfold upsertTableLock at h ⊢
  rcases row with _ | r
  · rfl
  · rcases hr : r.lockedTill with _ | t
    · simp [hr, lockedTill]
    · simp only [hr] at h ⊢
      split_ifs at h ⊢ with ht
      rfl

theorem upsertTableLock_same {row : Option (ViewLockRow E)} {till : ℤ}
    (h : (upsertTableLock till row).2 ≠ 1) : (upsertTableLock till row).1 = row := by
  unfold upsertTableLock at h ⊢
  rcases row with _ | r
  · simp at h
  · rcases hr : r.lockedTill with _ | t
    · simp [hr] at h
    · simp only [hr] at h ⊢
      split_ifs at h ⊢ <;> simp_all

theorem updateTableLock_row (till : ℤ) (row : Option (ViewLockRow E)) :
    lockedTill (updateTableLock till row).1 = (lockedTill row).map fun _ => till := by
  unfold updateTableLock lockedTill
  rcases row with _ | r
  · rfl
  · rcases hr : r.lockedTill with _ | t <;> simp [hr]

theorem updateTableLock_changes {till : ℤ} {row : Option (ViewLockRow E)} :
    (updateTableLock till row).2 = 1 ↔ (lockedTill row).isSome := by
  unfold updateTableLock lockedTill
  rcases row with _ | r
  · simp
  · rcases hr : r.lockedTill with _ | t <;> simp [hr]

@[simp] theorem set_same (s : Sys E) (i : ℕ) (l : Locker) : (s.set i l).lockers i = l := by
  simp [Sys.set]

theorem set_ne (s : Sys E) {i j : ℕ} (l : Locker) (h : j ≠ i) :
    (s.set i l).lockers j = s.lockers j := by
  simp [Sys.set, h]

@[simp] theorem set_row (s : Sys E) (i : ℕ) (l : Locker) : (s.set i l).row = s.row := rfl
@[simp] theorem set_now (s : Sys E) (i : ℕ) (l : Locker) : (s.set i l).now = s.now := rfl

/-- What a step must not be for the lock to exclude: a `lock()` attempt that asks for a later
expiry while the stored one is not past, a prolongation that shortens another holder's lease, or a
release while some locker holds the lock. -/
def Undisturbed (s : Sys E) : Action → Prop
  | .upsert i => ∀ t, lockedTill s.row = some t → s.now ≤ t → s.now + viewLockTtl i ≤ t
  | .update i => ∀ j ≠ i, Holds s j → ∀ t, (s.lockers j).lastWritten = some t →
      t ≤ s.now + viewLockTtl i
  | .remove _ => ∀ j, ¬ Holds s j
  | _ => True

/-- The row's expiry is no earlier than what each holder last wrote. -/
def Covered (s : Sys E) : Prop :=
  ∀ j, Holds s j → ∃ t, lockedTill s.row = some t
    ∧ ∀ w, (s.lockers j).lastWritten = some w → w ≤ t

/-- A locker that holds the lock still holds it before its own calls and later on the clock. -/
theorem Holds.of_same {s s' : Sys E} {j : ℕ} (h : Holds s' j) (hn : s.now ≤ s'.now)
    (hl : (s'.lockers j).locked = true → (s.lockers j).locked = true)
    (hw : (s'.lockers j).lastWritten = (s.lockers j).lastWritten) : Holds s j := by
  obtain ⟨hlocked, t, ht, hle⟩ := h
  exact ⟨hl hlocked, t, hw ▸ ht, Int.le_trans hn hle⟩

theorem Covered.of_same {s s' : Sys E} (h : Covered s) (hr : s'.row = s.row)
    (hn : s.now ≤ s'.now) (hl : ∀ j, (s'.lockers j).locked = true → (s.lockers j).locked = true)
    (hw : ∀ j, (s'.lockers j).lastWritten = (s.lockers j).lastWritten) : Covered s' := by
  intro j hj
  obtain ⟨t, ht, hle⟩ := h j (hj.of_same hn (hl j) (hw j))
  exact ⟨t, hr ▸ ht, fun w hjw => hle w (hw j ▸ hjw)⟩

/-- A call writes nothing before its query. -/
theorem Covered.set {s : Sys E} (h : Covered s) {i : ℕ} {l : Locker}
    (hl : l.locked = true → (s.lockers i).locked = true)
    (hw : l.lastWritten = (s.lockers i).lastWritten) : Covered (s.set i l) := by
  refine h.of_same rfl (Int.le_refl _) (fun j => ?_) (fun j => ?_)
  all_goals
    by_cases hji : j = i
    · subst hji
      simpa using by assumption
    · simp [set_ne _ _ hji]

/-- Where no unexpired lock is taken over, whoever obtains the lock finds no holder. -/
theorem obtains_excludes {s : Sys E} {i : ℕ} (hc : Covered s)
    (hu : Undisturbed viewLockTtl s (.upsert i)) (ho : Obtains viewLockTtl s i) (j : ℕ) :
    ¬ Holds s j := by
  intro hj
  obtain ⟨t, ht, hle⟩ := hc j hj
  obtain ⟨-, w, hw, hnow⟩ := hj
  have hlt := upsertTableLock_changes.1 ho.2 t ht
  have hge := hu t ht (Int.le_trans hnow (hle w hw))
  omega

theorem covered_tryLock {s s' : Sys E} {i : ℕ} (hc : Covered s)
    (hu : Undisturbed viewLockTtl s (.upsert i)) (h : tryLock viewLockTtl s i = some s') :
    Covered s' := by
  unfold tryLock at h
  simp only [] at h
  split_ifs at h with h0 h1 <;> simp only [Option.some.injEq] at h <;> subst h
  · intro j hj
    refine ⟨_, upsertTableLock_row h1, ?_⟩
    by_cases hji : j = i
    · subst hji
      simp
    · refine absurd ?_ (obtains_excludes viewLockTtl hc hu ⟨h0, h1⟩ j)
      exact hj.of_same (Int.le_refl _) (by simp [set_ne _ _ hji]) (by simp [set_ne _ _ hji])
  · exact hc.of_same (upsertTableLock_same h1) (Int.le_refl _) (fun _ h => h) (fun _ => rfl)

theorem covered_runProlong {s s' : Sys E} {i : ℕ} (hc : Covered s)
    (hu : Undisturbed viewLockTtl s (.update i)) (h : runProlong viewLockTtl s i = some s') :
    Covered s' := by
  unfold runProlong at h
  simp only [] at h
  split_ifs at h with h0 hch <;> simp only [Option.some.injEq] at h <;> subst h <;> intro j hj
  · obtain ⟨t, ht⟩ := Option.isSome_iff_exists.1 (updateTableLock_changes.1 hch)
    refine ⟨s.now + viewLockTtl i, by simp [updateTableLock_row, ht], ?_⟩
    by_cases hji : j = i
    · subst hji
      simp
    · intro w hw
      rw [set_ne _ _ hji] at hw
      exact hu j hji (hj.of_same (Int.le_refl _) (by simp [set_ne _ _ hji])
        (by simp [set_ne _ _ hji])) w hw
  · have hnone : lockedTill s.row = none := by
      simpa [updateTableLock_changes] using hch
    have hs : Holds s j := by
      by_cases hji : j = i
      · subst hji
        exact hj.of_same (Int.le_refl _) (by simp) (by simp)
      · exact hj.of_same (Int.le_refl _) (by simp [set_ne _ _ hji]) (by simp [set_ne _ _ hji])
    obtain ⟨t, ht, -⟩ := hc j hs
    simp [hnone] at ht

theorem covered_runUnlock {s s' : Sys E} {i : ℕ} (hu : Undisturbed viewLockTtl s (.remove i))
    (h : runUnlock s i = some s') : Covered s' := by
  unfold runUnlock at h
  simp only [] at h
  split_ifs at h with h0
  simp only [Option.some.injEq] at h
  subst h
  intro j hj
  refine (hu j (hj.of_same (Int.le_refl _) ?_ ?_)).elim
  all_goals
    by_cases hji : j = i
    · subst hji
      simp
    · simp [set_ne _ _ hji]

/-- Each undisturbed step keeps the row's expiry at or past what the holders wrote. -/
theorem covered_step {s s' : Sys E} {a : Action} (hc : Covered s)
    (hu : Undisturbed viewLockTtl s a) (h : step viewLockTtl s a = some s') : Covered s' := by
  cases a with
  | tick ms =>
    simp only [step, Option.some.injEq] at h
    subst h
    exact hc.of_same rfl (Int.le_add_of_nonneg_right (Int.natCast_nonneg ms)) (fun _ h => h)
      fun _ => rfl
  | lock i =>
    simp only [step, Option.some.injEq] at h
    exact h ▸ hc.set id rfl
  | upsert i => exact covered_tryLock viewLockTtl hc hu h
  | prolongLock i =>
    simp only [step, Option.some.injEq] at h
    exact h ▸ hc.set id rfl
  | update i => exact covered_runProlong viewLockTtl hc hu h
  | unlock i =>
    simp only [step, Option.some.injEq] at h
    exact h ▸ hc.set (by simp) rfl
  | remove i => exact covered_runUnlock viewLockTtl hu h

theorem covered_init {s : Sys E} (h : Init s) : Covered s := by
  intro j hj
  have := hj.1
  rw [h.1 j] at this
  simp at this

theorem covered {s : Sys E} (h : (machine viewLockTtl).ReachIf (Undisturbed viewLockTtl) s) :
    Covered s :=
  h.invariant (fun _ => covered_init) fun _ _ _ hc hu h => covered_step viewLockTtl hc hu h

/-- In a run of undisturbed steps a `lock()` call obtains the lock only when no other locker
holds it. -/
theorem lock_excludes {s : Sys E} {i : ℕ}
    (hr : (machine viewLockTtl).ReachIf (Undisturbed viewLockTtl) s)
    (hu : Undisturbed viewLockTtl s (.upsert i)) (ho : Obtains viewLockTtl s i) :
    ∀ j ≠ i, ¬ Holds s j :=
  fun j _ => obtains_excludes viewLockTtl (covered viewLockTtl hr) hu ho j

/-- A second locker that tries again once the first one's two minutes are over. -/
theorem lock_excludes_expired :
    ∃ s : Sys Unit, s.now = 120001 ∧ Obtains (fun _ => 120000) s 1 ∧ ∀ j ≠ 1, ¬ Holds s j := by
  let ttl : ℕ → ℤ := fun _ => 120000
  let s₀ : Sys Unit := { now := 0, row := none, lockers := fun _ => {} }
  have h0 : (machine ttl).ReachIf (Undisturbed ttl) s₀ := .init ⟨fun _ => rfl, by simp [s₀]⟩
  have h1 := h0.step (Action.lock 0) trivial rfl
  have h2 := h1.step (Action.upsert 0) (fun t ht => by cases ht) rfl
  have h3 := h2.step (Action.tick 120001) trivial rfl
  have h4 := h3.step (Action.lock 1) trivial rfl
  refine ⟨_, rfl, ?_, lock_excludes ttl h4 (fun t ht hle => ?_) ?_⟩
  · exact ⟨by decide, by decide⟩
  · cases ht
    exact absurd hle (by decide)
  · exact ⟨by decide, by decide⟩

/-- One millisecond after a locker obtained the lock for two minutes, another obtains it. -/
theorem lock_excludes_fails :
    ¬ ∀ (viewLockTtl : ℕ → ℤ) (s : Sys Unit) (i : ℕ), (machine viewLockTtl).Reach s →
      Obtains viewLockTtl s i → ∀ j ≠ i, ¬ Holds s j := by
  intro hall
  let ttl : ℕ → ℤ := fun _ => 120000
  let s₀ : Sys Unit := { now := 0, row := none, lockers := fun _ => {} }
  obtain ⟨s, hs⟩ : ∃ s, (machine ttl).run s₀ [.lock 0, .upsert 0, .lock 1, .tick 1] = some s :=
    ⟨_, rfl⟩
  have hr : (machine ttl).Reach s := Machine.reach_of_run ⟨fun _ => rfl, by simp [s₀]⟩ hs
  cases hs
  refine hall ttl _ 1 hr ⟨by decide, by decide⟩ 0 (by decide) ⟨by decide, 120000, by decide, ?_⟩
  decide

end SqliteViewLocker

end NodeCqrs
