import NodeCqrs.Proofs.SqliteViewLocker

/-!
# Whose lock `SqliteViewLocker` writes

The queries of `prolongLock()` and `unlock()` name the row and not the locker, so those of a locker
whose lease is over change the row of the next one (`keepsOff_fails`). Where a locker's queries run
before its lease is over or after the row's is, `lock()` takes no lease that is not over, and no
query of an `unlock()` comes once its locker has the lock again (`Timely`), no locker changes the row
while another holds the lock (`keepsOff`).
-/

namespace NodeCqrs

namespace SqliteViewLocker

variable {E : Type} {viewLockTtl : ℕ → ℤ} {s s' : Sys E} {i j : ℕ}

/-- The lease of the locker is not over. -/
def Leased (s : Sys E) (i : ℕ) : Prop := ∃ t, (s.lockers i).lease = some t ∧ s.now ≤ t

/-- While the stored expiry is not past, `lock()` asks for no later one, and the other queries that
run are those of a locker whose lease is not over. The query of an `unlock()` does not come while its
locker holds the lock, which it has locked again. -/
def Timely (viewLockTtl : ℕ → ℤ) (s : Sys E) : Action → Prop
  | .upsert i => Undisturbed viewLockTtl s (.upsert i)
  | .update i => ∀ t, lockedTill s.row = some t → s.now ≤ t → Leased s i
  | .remove i => ¬ Holds s i ∧ ∀ t, lockedTill s.row = some t → s.now ≤ t → Leased s i
  | _ => True

/-- The row is the leased locker's, and there is only one. What the holder of the lock wrote is its
lease. -/
structure Alone (s : Sys E) : Prop where
  row : ∀ i, Leased s i → lockedTill s.row = (s.lockers i).lease
  one : ∀ i j, Leased s i → Leased s j → i = j
  written : ∀ i t, (s.lockers i).locked = true → (s.lockers i).lastWritten = some t → s.now ≤ t →
    (s.lockers i).lease = some t

theorem Alone.leased (h : Alone s) (hi : Holds s i) : Leased s i := by
  obtain ⟨hlocked, t, ht, hle⟩ := hi
  exact ⟨t, h.written i t hlocked ht hle, hle⟩

theorem updateTableLock_same {till : ℤ} {row : Option (ViewLockRow E)}
    (h : (updateTableLock till row).2 ≠ 1) : (updateTableLock till row).1 = row := by
  unfold updateTableLock at h ⊢
  rcases row with _ | r
  · rfl
  · simp only [] at h ⊢
    split_ifs at h ⊢
    · exact absurd rfl h
    · rfl

theorem leased_set {l : Locker} : Leased (s.set i l) j ↔
    if j = i then ∃ t, l.lease = some t ∧ s.now ≤ t else Leased s j := by
  split_ifs with hji
  · subst hji
    simp [Leased]
  · simp [Leased, set_ne _ _ hji]

/-- A call of the locker that writes nothing. -/
theorem Alone.set (h : Alone s) {l : Locker} (hlease : l.lease = (s.lockers i).lease)
    (hwritten : l.lastWritten = (s.lockers i).lastWritten)
    (hlocked : l.locked = true → (s.lockers i).locked = true) : Alone (s.set i l) := by
  have hl : ∀ j, Leased (s.set i l) j ↔ Leased s j := by
    intro j
    rw [leased_set]
    split_ifs with hji
    · rw [hji, hlease]
      rfl
    · rfl
  refine ⟨fun j hj => ?_, fun j k hj hk => h.one j k ((hl j).1 hj) ((hl k).1 hk),
    fun j t hj ht hle => ?_⟩
  · have hrow := h.row j ((hl j).1 hj)
    by_cases hji : j = i
    · rw [hji] at hrow ⊢
      rw [set_row, set_same, hrow, hlease]
    · rw [set_row, set_ne _ _ hji, hrow]
  · by_cases hji : j = i
    · subst hji
      rw [set_same] at hj ht ⊢
      exact hlease.trans (h.written j t (hlocked hj) (hwritten ▸ ht) hle)
    · rw [set_ne _ _ hji] at hj ht ⊢
      exact h.written j t hj ht hle

/-- The locker's query leaves the row its lease, or it has none, and nobody else has a lease. -/
theorem Alone.write (h : Alone s) {row : Option (ViewLockRow E)} {l : Locker}
    (hothers : ∀ j ≠ i, ¬ Leased s j) (hrow : l.lease = none ∨ lockedTill row = l.lease)
    (hholds : l.locked = true → ∀ t, l.lastWritten = some t → s.now ≤ t → l.lease = some t) :
    Alone ({ s with row }.set i l) := by
  -- only the locker may have a lease now
  have hself : ∀ j, Leased ({ s with row }.set i l) j → j = i := by
    intro j hj
    by_contra hji
    rw [leased_set, if_neg hji] at hj
    exact hothers j hji hj
  refine ⟨fun j hj => ?_, fun j k hj hk => (hself j hj).trans (hself k hk).symm,
    fun j t hj ht hle => ?_⟩
  · obtain rfl := hself j hj
    rw [leased_set, if_pos rfl] at hj
    obtain ⟨t, ht, -⟩ := hj
    rw [set_row, set_same]
    exact hrow.resolve_left fun hnone => by rw [hnone] at ht; cases ht
  · by_cases hji : j = i
    · subst hji
      rw [set_same] at hj ht ⊢
      exact hholds hj t ht hle
    · rw [set_ne _ _ hji] at hj ht ⊢
      exact h.written j t hj ht hle

/-- A lease is the locker's own if the row's is. -/
theorem Alone.others (h : Alone s)
    (hi : ∀ t, lockedTill s.row = some t → s.now ≤ t → Leased s i) : ∀ j ≠ i, ¬ Leased s j := by
  intro j hji hj
  obtain ⟨t, ht, hnow⟩ := hj
  exact hji (h.one j i ⟨t, ht, hnow⟩ (hi t ((h.row j ⟨t, ht, hnow⟩).trans ht) hnow))

theorem Alone.tryLock (h : Alone s) (ht : Undisturbed viewLockTtl s (.upsert i))
    (hst : tryLock viewLockTtl s i = some s') : Alone s' := by
  unfold SqliteViewLocker.tryLock at hst
  simp only [] at hst
  split_ifs at hst with h0 h1 <;> obtain rfl := Option.some.inj hst
  · refine h.write (fun j _ hj => ?_) (.inr (upsertTableLock_row h1)) fun _ t ht _ => ht
    obtain ⟨w, hw, hnow⟩ := hj
    have hrow := (h.row j ⟨w, hw, hnow⟩).trans hw
    have hlt := upsertTableLock_changes.1 h1 w hrow
    have hge := ht w hrow hnow
    omega
  · rw [upsertTableLock_same h1]
    exact h

theorem Alone.runProlong (h : Alone s)
    (hi : ∀ t, lockedTill s.row = some t → s.now ≤ t → Leased s i)
    (hst : runProlong viewLockTtl s i = some s') : Alone s' := by
  unfold SqliteViewLocker.runProlong at hst
  simp only [] at hst
  split_ifs at hst with h0 hchanges <;> obtain rfl := Option.some.inj hst
  · obtain ⟨t, ht⟩ := Option.isSome_iff_exists.1 (updateTableLock_changes.1 hchanges)
    refine h.write (h.others hi) (.inr ?_) fun _ t ht _ => ht
    rw [updateTableLock_row, ht]
    rfl
  · rw [updateTableLock_same hchanges]
    exact h.set rfl rfl id

theorem Alone.runUnlock (h : Alone s) (hn : ¬ Holds s i)
    (hi : ∀ t, lockedTill s.row = some t → s.now ≤ t → Leased s i)
    (hst : runUnlock s i = some s') : Alone s' := by
  unfold SqliteViewLocker.runUnlock at hst
  simp only [] at hst
  split_ifs at hst with h0
  obtain rfl := Option.some.inj hst
  exact h.write (h.others hi) (.inl rfl) fun hl t ht hle => absurd ⟨hl, t, ht, hle⟩ hn

theorem alone_step {a : Action} (h : Alone s) (ht : Timely viewLockTtl s a)
    (hst : step viewLockTtl s a = some s') : Alone s' := by
  cases a with
  | tick ms =>
    obtain rfl := Option.some.inj hst
    have hnow : s.now ≤ s.now + ms := Int.le_add_of_nonneg_right (Int.natCast_nonneg ms)
    have hl : ∀ i, Leased { s with now := s.now + ms } i → Leased s i := fun i ⟨t, ht, hle⟩ =>
      ⟨t, ht, Int.le_trans hnow hle⟩
    exact ⟨fun i hi => h.row i (hl i hi), fun i j hi hj => h.one i j (hl i hi) (hl j hj),
      fun i t hi ht hle => h.written i t hi ht (Int.le_trans hnow hle)⟩
  | lock i =>
    obtain rfl := Option.some.inj hst
    exact h.set rfl rfl id
  | upsert i => exact h.tryLock ht hst
  | prolongLock i =>
    obtain rfl := Option.some.inj hst
    exact h.set rfl rfl id
  | update i => exact h.runProlong ht hst
  | unlock i =>
    obtain rfl := Option.some.inj hst
    exact h.set rfl rfl fun hl => by cases hl
  | remove i => exact h.runUnlock ht.1 ht.2 hst

theorem alone_init (h : Init s) : Alone s := by
  have hl : ∀ i, ¬ Leased s i := by
    rintro i ⟨t, ht, -⟩
    simp [h.1 i] at ht
  exact ⟨fun i hi => absurd hi (hl i), fun i j hi => absurd hi (hl i), fun i t hi => by
    simp [h.1 i] at hi⟩

theorem alone (h : (machine viewLockTtl).ReachIf (Timely viewLockTtl) s) : Alone s :=
  h.invariant (P := Alone) (fun _ => alone_init) fun _ _ _ ha ht hst => alone_step ha ht hst

/-- The step is a query of a locker's `prolongLock()` or `unlock()` that changes the row while another
locker holds the lock. -/
def ChangesOthers (viewLockTtl : ℕ → ℤ) (s : Sys E) (a : Action) : Prop :=
  ∃ i j s', (a = .update i ∨ a = .remove i) ∧ j ≠ i ∧ Holds s j ∧ step viewLockTtl s a = some s' ∧
    s'.row ≠ s.row

/-- In a run of timely steps no query of a locker's `prolongLock()` or `unlock()` changes the row
while another locker holds the lock. -/
theorem keepsOff (h : (machine viewLockTtl).ReachIf (Timely viewLockTtl) s) {a : Action}
    (ht : Timely viewLockTtl s a) : ¬ ChangesOthers viewLockTtl s a := by
  rintro ⟨i, j, s', ha, hji, hj, -, -⟩
  refine (alone h).others (fun t hrow hnow => ?_) j hji ((alone h).leased hj)
  rcases ha with rfl | rfl
  · exact ht t hrow hnow
  · exact ht.2 t hrow hnow

/-- A second locker locks once the first one's two minutes are over, and prolongs its lock. -/
theorem keepsOff_expired :
    ∃ s s' : Sys Unit, s.now = 180001 ∧ step (fun _ => 120000) s (.update 1) = some s' ∧
      s'.row ≠ s.row ∧ ¬ ChangesOthers (fun _ => 120000) s (.update 1) := by
  let ttl : ℕ → ℤ := fun _ => 120000
  let s₀ : Sys Unit := { now := 0, row := none, lockers := fun _ => {} }
  have h0 : (machine ttl).ReachIf (Timely ttl) s₀ := .init ⟨fun _ => rfl, by simp [s₀]⟩
  have h1 := h0.step (Action.lock 0) trivial rfl
  have h2 := h1.step (Action.upsert 0) (fun t ht => by cases ht) rfl
  have h3 := h2.step (Action.tick 120001) trivial rfl
  have h4 := h3.step (Action.lock 1) trivial rfl
  have h5 := h4.step (Action.upsert 1) (fun t ht hle => by
    cases ht
    exact absurd hle (by decide)) rfl
  have h6 := h5.step (Action.tick 60000) trivial rfl
  have h7 := h6.step (Action.prolongLock 1) trivial rfl
  exact ⟨_, _, rfl, rfl, by decide,
    keepsOff h7 fun _ _ _ => ⟨240001, rfl, by decide⟩⟩

/-- The lease of a locker is over and another locks; then the first one unlocks. -/
def late : List Action := [.lock 0, .upsert 0, .tick 1001, .lock 1, .upsert 1, .unlock 0]

theorem keepsOff_fails :
    ¬ ∀ (viewLockTtl : ℕ → ℤ) (s : Sys Unit) (a : Action), (machine viewLockTtl).Reach s →
      ¬ ChangesOthers viewLockTtl s a := by
  intro hall
  let ttl : ℕ → ℤ := fun _ => 1000
  let s₀ : Sys Unit := { now := 0, row := none, lockers := fun _ => {} }
  obtain ⟨s, hs⟩ : ∃ s, (machine ttl).run s₀ late = some s := ⟨_, rfl⟩
  have hr : (machine ttl).Reach s := Machine.reach_of_run ⟨fun _ => rfl, by simp [s₀]⟩ hs
  cases hs
  exact hall ttl _ (.remove 0) hr ⟨0, 1, _, .inr rfl, by decide,
    ⟨by decide, 2001, by decide, by decide⟩, rfl, by decide⟩

end SqliteViewLocker

end NodeCqrs
