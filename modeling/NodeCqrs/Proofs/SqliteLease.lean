import NodeCqrs.Proofs.SqliteViewLocker
import NodeCqrs.Proofs.Timers
import NodeCqrs.Sqlite.ViewLockTimers

/-!
# The lease of `SqliteViewLocker`

`prolongLock()` arms no timer, so a lock is prolonged once: its lease is over when the TTL has passed
since then (`leaseLasts_fails`). Until then it lasts, whatever the other lockers do that does not
shorten it (`leaseLasts`).
-/

namespace NodeCqrs

namespace SqliteViewLocker

variable {E : Type} {viewLockTtl : ℕ → ℤ} {s s' : Timed E} {i : ℕ}

/-- For how long a lease lasts that is prolonged once; one of a millisecond is over before. -/
def prolongedOnce (ttl : ℤ) : ℤ := ttl + if halfTimeout ttl < ttl then halfTimeout ttl else 0

/-- Timers are on time, no lock is held for longer than it lasts when it is prolonged once, and no
query of another locker shortens or ends its lease. -/
def Lasting (viewLockTtl : ℕ → ℤ) (s : Timed E) : TimedAction → Prop
  | .act (.tick ms) => OnTime s (.act (.tick ms)) ∧ ∀ i, (s.sys.lockers i).locked = true →
      s.sys.now + ms < s.lockedAt i + prolongedOnce (viewLockTtl i)
  | .act (.update i) => ∀ j ≠ i, (s.sys.lockers j).locked = true →
      ∀ t, (s.sys.lockers j).lastWritten = some t → t ≤ s.sys.now + viewLockTtl i
  | .act (.remove _) => ∀ j, (s.sys.lockers j).locked = false
  | _ => True

/-- The timers: none is overdue, and each locker knows only its own. -/
structure Armed (s : Timed E) : Prop where
  due : ∀ h timer, s.timers.armed h = some timer → s.sys.now ≤ timer.due
  fresh : ∀ h timer, s.timers.armed h = some timer → h < s.timers.nextHandle
  known : ∀ i h, s.lockProlongationTimeout i = some h → h < s.timers.nextHandle ∧
    ∀ timer, s.timers.armed h = some timer → timer.owner = i

/-- How far a lock that is held is prolonged: its timer is armed, `prolongLock()` is about to run its
query, or it has. -/
def Prolonged (ttl : ℤ) (s : Timed E) (i : ℕ) (w : ℤ) : Prop :=
  s.lockedAt i + ttl ≤ w ∧
    ((∃ h, s.timers.armed h = some { owner := i, due := s.lockedAt i + halfTimeout ttl }) ∨
      ((s.sys.lockers i).prolonging ≠ 0 ∧ s.sys.now = s.lockedAt i + halfTimeout ttl) ∨
      (s.lockedAt i + halfTimeout ttl ≤ s.sys.now ∧ s.lockedAt i + halfTimeout ttl + ttl ≤ w))

/-- What holds of a locker that has obtained the lock and not called `unlock()`. -/
structure Lease (viewLockTtl : ℕ → ℤ) (s : Timed E) (i : ℕ) : Prop where
  since : s.lockedAt i ≤ s.sys.now
  before : s.sys.now < s.lockedAt i + prolongedOnce (viewLockTtl i)
  written : ∃ w t, (s.sys.lockers i).lastWritten = some w ∧ lockedTill s.sys.row = some t ∧ w ≤ t ∧
    Prolonged (viewLockTtl i) s i w

theorem prolongedOnce_pos {ttl : ℤ} (h : 0 < ttl) : 0 < prolongedOnce ttl := by
  have := halfTimeout_pos ttl
  unfold prolongedOnce
  split_ifs <;> omega

/-- The stored expiry is later than the clock. -/
theorem Lease.later (h : Lease viewLockTtl s i) (harmed : Armed s) :
    ∃ t, lockedTill s.sys.row = some t ∧ s.sys.now < t := by
  obtain ⟨w, t, -, ht, hle, hfrom, hprolonged⟩ := h.written
  have hbefore := h.before
  refine ⟨t, ht, ?_⟩
  unfold prolongedOnce at hbefore
  split_ifs at hbefore with hhalf
  · rcases hprolonged with ⟨handle, hh⟩ | ⟨-, hnow⟩ | ⟨-, hw⟩
    · have hdue := harmed.due handle _ hh
      simp only [] at hdue
      omega
    · omega
    · omega
  · omega

/-! ## What a step does to the timers -/

theorem Armed.of_timers (h : Armed s) (hnow : s'.sys.now = s.sys.now)
    (hnext : s'.timers.nextHandle = s.timers.nextHandle)
    (htimers : ∀ h timer, s'.timers.armed h = some timer → s.timers.armed h = some timer)
    (hknown : s'.lockProlongationTimeout = s.lockProlongationTimeout) : Armed s' := by
  refine ⟨fun handle timer ht => ?_, fun handle timer ht => ?_, fun i handle hh => ?_⟩
  · rw [hnow]
    exact h.due handle timer (htimers handle timer ht)
  · rw [hnext]
    exact h.fresh handle timer (htimers handle timer ht)
  · rw [hknown] at hh
    rw [hnext]
    exact ⟨(h.known i handle hh).1,
      fun timer ht => (h.known i handle hh).2 timer (htimers handle timer ht)⟩

theorem Armed.schedule (h : Armed s) (i : ℕ) : Armed (scheduleLockProlongation viewLockTtl s i) := by
  have hhalf := halfTimeout_pos (viewLockTtl i)
  refine ⟨fun handle timer ht => ?_, fun handle timer ht => ?_, fun j handle hh => ?_⟩
  · rcases Timers.armed_setTimeout.1 ht with ⟨-, rfl⟩ | ⟨-, ht⟩
    · show s.sys.now ≤ s.sys.now + halfTimeout (viewLockTtl i)
      omega
    · exact h.due handle timer ht
  · rcases Timers.armed_setTimeout.1 ht with ⟨rfl, -⟩ | ⟨-, ht⟩
    · exact Nat.lt_succ_self _
    · exact Nat.lt_succ_of_lt (h.fresh handle timer ht)
  · by_cases hji : j = i
    · subst hji
      obtain rfl : s.timers.nextHandle = handle := by
        simpa [scheduleLockProlongation] using hh
      refine ⟨Nat.lt_succ_self _, fun timer ht => ?_⟩
      rcases Timers.armed_setTimeout.1 ht with ⟨-, rfl⟩ | ⟨hne, -⟩
      · rfl
      · exact absurd rfl hne
    · have hh' : s.lockProlongationTimeout j = some handle := by
        simpa [scheduleLockProlongation, hji] using hh
      obtain ⟨hlt, hown⟩ := h.known j handle hh'
      refine ⟨Nat.lt_succ_of_lt hlt, fun timer ht => ?_⟩
      rcases Timers.armed_setTimeout.1 ht with ⟨heq, -⟩ | ⟨-, ht⟩
      · exact absurd heq (Nat.ne_of_lt hlt)
      · exact hown timer ht

/-! ## What a step does to a lease -/

/-- A step of the clock, or one that keeps the expiry later than what the locker wrote. -/
theorem Lease.mono (h : Lease viewLockTtl s i) (hnow : s'.sys.now = s.sys.now)
    (hlockedAt : s'.lockedAt i = s.lockedAt i)
    (hwritten : (s'.sys.lockers i).lastWritten = (s.sys.lockers i).lastWritten)
    (hrow : ∀ w t, (s.sys.lockers i).lastWritten = some w → lockedTill s.sys.row = some t → w ≤ t →
      ∃ t', lockedTill s'.sys.row = some t' ∧ w ≤ t')
    (harmed : ∀ h due, s.timers.armed h = some { owner := i, due } →
      s'.timers.armed h = some { owner := i, due } ∨
        (s'.sys.lockers i).prolonging ≠ 0 ∧ s.sys.now = due)
    (hprolonging : (s.sys.lockers i).prolonging ≠ 0 → (s'.sys.lockers i).prolonging ≠ 0) :
    Lease viewLockTtl s' i := by
  obtain ⟨w, t, hw, ht, hle, hfrom, hprolonged⟩ := h.written
  obtain ⟨t', ht', hle'⟩ := hrow w t hw ht hle
  refine ⟨?_, ?_, w, t', hwritten.trans hw, ht', hle', ?_, ?_⟩
  · rw [hlockedAt, hnow]
    exact h.since
  · rw [hlockedAt, hnow]
    exact h.before
  · rw [hlockedAt]
    exact hfrom
  · rw [hlockedAt, hnow]
    rcases hprolonged with ⟨handle, hh⟩ | ⟨hp, hdue⟩ | hdone
    · rcases harmed handle _ hh with hh | hp
      · exact .inl ⟨handle, hh⟩
      · exact .inr (.inl hp)
    · exact .inr (.inl ⟨hprolonging hp, hdue⟩)
    · exact .inr (.inr hdone)

/-- What holds in a run of lasting steps. -/
structure Leases (viewLockTtl : ℕ → ℤ) (s : Timed E) : Prop where
  armed : Armed s
  lease : ∀ i, (s.sys.lockers i).locked = true → Lease viewLockTtl s i

theorem Leases.tick (h : Leases viewLockTtl s) {ms : ℕ}
    (hlast : Lasting viewLockTtl s (.act (.tick ms))) :
    Leases viewLockTtl { s with sys := { s.sys with now := s.sys.now + ms } } := by
  obtain ⟨⟨hdue, hidle⟩, hbefore⟩ := hlast
  refine ⟨⟨hdue, h.armed.fresh, h.armed.known⟩, fun i hl => ?_⟩
  obtain ⟨hsince, -, w, t, hw, ht, hle, hfrom, hprolonged⟩ := h.lease i hl
  have hms : s.sys.now ≤ s.sys.now + ms := Int.le_add_of_nonneg_right (Int.natCast_nonneg ms)
  refine ⟨Int.le_trans hsince hms, hbefore i hl, w, t, hw, ht, hle, hfrom, ?_⟩
  rcases hprolonged with hh | ⟨hp, -⟩ | ⟨hnow, hdone⟩
  · exact .inl hh
  · exact absurd (hidle i) hp
  · exact .inr (.inr ⟨Int.le_trans hnow hms, hdone⟩)

/-- A call of the locker that writes nothing and arms no timer. -/
theorem Leases.set (h : Leases viewLockTtl s) (i : ℕ) {l : Locker}
    (hlocked : l.locked = true → (s.sys.lockers i).locked = true)
    (hwritten : l.lastWritten = (s.sys.lockers i).lastWritten)
    (hprolonging : l.prolonging = (s.sys.lockers i).prolonging) :
    Leases viewLockTtl { s with sys := s.sys.set i l } := by
  refine ⟨h.armed.of_timers rfl rfl (fun _ _ ht => ht) rfl, fun j hl => ?_⟩
  have hlj : (s.sys.lockers j).locked = true := by
    by_cases hji : j = i
    · subst hji
      exact hlocked (by simpa using hl)
    · simpa [set_ne _ _ hji] using hl
  refine (h.lease j hlj).mono rfl rfl ?_ (fun w t _ ht hle => ⟨t, ht, hle⟩) (fun _ _ => .inl) ?_
  · by_cases hji : j = i
    · subst hji
      simpa using hwritten
    · simp [set_ne _ _ hji]
  · by_cases hji : j = i
    · subst hji
      simp [hprolonging]
    · simp [set_ne _ _ hji]

theorem Leases.obtain (h : Leases viewLockTtl s) (hpos : 0 < viewLockTtl i)
    (hobtains : (upsertTableLock (s.sys.now + viewLockTtl i) s.sys.row).2 = 1) {l : Locker}
    (hwritten : l.lastWritten = some (s.sys.now + viewLockTtl i)) :
    Leases viewLockTtl (scheduleLockProlongation viewLockTtl { s with sys := { s.sys with
      row := (upsertTableLock (s.sys.now + viewLockTtl i) s.sys.row).1 }.set i l } i) := by
  have hrow := upsertTableLock_row hobtains
  have harmed : Armed { s with sys := { s.sys with
      row := (upsertTableLock (s.sys.now + viewLockTtl i) s.sys.row).1 }.set i l } :=
    h.armed.of_timers rfl rfl (fun _ _ ht => ht) rfl
  refine ⟨harmed.schedule i, fun j hl => ?_⟩
  by_cases hji : j = i
  · subst hji
    have hat : (scheduleLockProlongation viewLockTtl { s with sys := { s.sys with
        row := (upsertTableLock (s.sys.now + viewLockTtl j) s.sys.row).1 }.set j l } j).lockedAt j =
        s.sys.now := by simp [scheduleLockProlongation]
    have honce := prolongedOnce_pos hpos
    refine ⟨?_, ?_, _, _, ?_, hrow, Int.le_refl _, ?_, .inl ⟨s.timers.nextHandle, ?_⟩⟩
    · rw [hat]
      exact Int.le_refl _
    · rw [hat]
      show s.sys.now < s.sys.now + prolongedOnce (viewLockTtl j)
      omega
    · simpa [scheduleLockProlongation] using hwritten
    · rw [hat]
    · rw [hat]
      exact Timers.armed_setTimeout.2 (.inl ⟨rfl, rfl⟩)
  · have hlj : (s.sys.lockers j).locked = true := by
      simpa [scheduleLockProlongation, set_ne _ _ hji] using hl
    refine (h.lease j hlj).mono rfl ?_ ?_ (fun w t _ ht hle => ?_) (fun handle due hh => .inl ?_) ?_
    · simp [scheduleLockProlongation, hji]
    · simp [scheduleLockProlongation, set_ne _ _ hji]
    · have hlt := upsertTableLock_changes.1 hobtains t ht
      exact ⟨_, hrow, by omega⟩
    · exact Timers.armed_setTimeout.2 (.inr ⟨Nat.ne_of_lt (h.armed.fresh handle _ hh), hh⟩)
    · simp [scheduleLockProlongation, set_ne _ _ hji]

theorem Leases.update (h : Leases viewLockTtl s) (hlast : Lasting viewLockTtl s (.act (.update i)))
    {sys : Sys E} (hst : runProlong viewLockTtl s.sys i = some sys) :
    Leases viewLockTtl { s with sys } := by
  unfold runProlong at hst
  simp only [] at hst
  split_ifs at hst with h0 hchanges <;> obtain rfl := Option.some.inj hst
  · obtain ⟨told, htold⟩ := Option.isSome_iff_exists.1 (updateTableLock_changes.1 hchanges)
    have hrow : lockedTill (updateTableLock (s.sys.now + viewLockTtl i) s.sys.row).1 =
        some (s.sys.now + viewLockTtl i) := by rw [updateTableLock_row, htold]; rfl
    refine ⟨h.armed.of_timers rfl rfl (fun _ _ ht => ht) rfl, fun j hl => ?_⟩
    by_cases hji : j = i
    · subst hji
      obtain ⟨hsince, hbefore, w, t, hw, ht, hle, hfrom, hprolonged⟩ :=
        h.lease j (by simpa using hl)
      refine ⟨hsince, hbefore, _, _, by simp, hrow, Int.le_refl _, ?_, ?_⟩
      · show s.lockedAt j + viewLockTtl j ≤ s.sys.now + viewLockTtl j
        omega
      · rcases hprolonged with hh | ⟨-, hnow⟩ | ⟨hnow, -⟩
        · exact .inl hh
        · refine .inr (.inr ⟨Int.le_of_eq hnow.symm, ?_⟩)
          rw [hnow]
        · refine .inr (.inr ⟨hnow, ?_⟩)
          show s.lockedAt j + halfTimeout (viewLockTtl j) + viewLockTtl j ≤ s.sys.now + viewLockTtl j
          omega
    · have hlj : (s.sys.lockers j).locked = true := by simpa [set_ne _ _ hji] using hl
      refine (h.lease j hlj).mono rfl rfl ?_ (fun w t hw _ _ => ?_) (fun _ _ => .inl) ?_
      · simp [set_ne _ _ hji]
      · exact ⟨_, hrow, hlast j hji hlj w hw⟩
      · simp [set_ne _ _ hji]
  · -- a lock that is held is in the row
    have hnone : lockedTill s.sys.row = none := by simpa [updateTableLock_changes] using hchanges
    refine ⟨h.armed.of_timers rfl rfl (fun _ _ ht => ht) rfl, fun j hl => ?_⟩
    have hlj : (s.sys.lockers j).locked = true := by
      by_cases hji : j = i
      · subst hji
        simpa using hl
      · simpa [set_ne _ _ hji] using hl
    obtain ⟨w, t, -, ht, -⟩ := (h.lease j hlj).written
    simp [hnone] at ht

theorem Leases.unlock (h : Leases viewLockTtl s) {l : Locker} (hlocked : l.locked = false) :
    Leases viewLockTtl (cancelLockProlongation { s with sys := s.sys.set i l } i) := by
  refine ⟨h.armed.of_timers rfl ?_ (fun _ _ ht => (Timers.armed_clearTimeout.1 ht).2) rfl,
    fun j hl => ?_⟩
  · show (s.timers.clearTimeout _).nextHandle = _
    cases s.lockProlongationTimeout i <;> rfl
  · by_cases hji : j = i
    · subst hji
      simp [cancelLockProlongation, hlocked] at hl
    · have hlj : (s.sys.lockers j).locked = true := by
        simpa [cancelLockProlongation, set_ne _ _ hji] using hl
      refine (h.lease j hlj).mono rfl rfl ?_ (fun w t _ ht hle => ⟨t, ht, hle⟩)
        (fun handle due hh => .inl ?_) ?_
      · simp [cancelLockProlongation, set_ne _ _ hji]
      · refine Timers.armed_clearTimeout.2 ⟨fun hk => ?_, hh⟩
        exact hji ((h.armed.known i handle hk).2 _ hh)
      · simp [cancelLockProlongation, set_ne _ _ hji]

theorem Leases.fire (h : Leases viewLockTtl s) {handle : ℕ} {timer : Timer}
    (ht : s.timers.armed handle = some timer) (hdue : timer.due ≤ s.sys.now) {l : Locker}
    (hlocked : l.locked = (s.sys.lockers timer.owner).locked)
    (hwritten : l.lastWritten = (s.sys.lockers timer.owner).lastWritten)
    (hprolonging : l.prolonging ≠ 0) :
    Leases viewLockTtl
      { s with sys := s.sys.set timer.owner l, timers := s.timers.clear handle } := by
  refine ⟨h.armed.of_timers rfl rfl (fun _ _ ht => (Timers.armed_clear.1 ht).2) rfl, fun j hl => ?_⟩
  have hlj : (s.sys.lockers j).locked = true := by
    by_cases hji : j = timer.owner
    · subst hji
      simpa [hlocked] using hl
    · simpa [set_ne _ _ hji] using hl
  refine (h.lease j hlj).mono rfl rfl ?_ (fun w t _ ht hle => ⟨t, ht, hle⟩)
    (fun handle' due hh => ?_) fun hp => ?_
  · by_cases hji : j = timer.owner
    · subst hji
      simpa using hwritten
    · simp [set_ne _ _ hji]
  · by_cases hhh : handle' = handle
    · -- its own timer: `prolongLock()` is called when it is due
      subst hhh
      obtain rfl := Option.some.inj (ht.symm.trans hh)
      have := h.armed.due handle' _ ht
      refine .inr ⟨by simpa using hprolonging, ?_⟩
      simp only [] at this hdue
      omega
    · exact .inl (Timers.armed_clear.2 ⟨hhh, hh⟩)
  · by_cases hji : j = timer.owner
    · subst hji
      simpa using hprolonging
    · simpa [set_ne _ _ hji] using hp

theorem leases_step (hpos : ∀ i, 0 < viewLockTtl i) (h : Leases viewLockTtl s) {a : TimedAction}
    (hlast : Lasting viewLockTtl s a) (hst : timedStep viewLockTtl s a = some s') :
    Leases viewLockTtl s' := by
  rcases a with a | handle
  · cases a <;> simp only [timedStep, Option.map_eq_some_iff, reduceCtorEq] at hst
    case tick ms =>
      obtain ⟨sys, hsys, rfl⟩ := hst
      obtain rfl := Option.some.inj hsys
      exact h.tick hlast
    case lock i =>
      obtain ⟨sys, hsys, rfl⟩ := hst
      obtain rfl := Option.some.inj hsys
      exact h.set i id rfl rfl
    case upsert i =>
      obtain ⟨sys, hsys, rfl⟩ := hst
      simp only [step] at hsys
      unfold tryLock at hsys
      simp only [] at hsys
      split_ifs at hsys ⊢ with h1 <;> obtain rfl := Option.some.inj hsys
      · exact h.obtain (hpos i) h1 rfl
      · rw [upsertTableLock_same h1]
        exact h
    case update i =>
      obtain ⟨sys, hsys, rfl⟩ := hst
      exact h.update hlast hsys
    case unlock i =>
      obtain ⟨sys, hsys, rfl⟩ := hst
      obtain rfl := Option.some.inj hsys
      exact h.unlock rfl
    case remove i =>
      obtain ⟨sys, hsys, rfl⟩ := hst
      simp only [step] at hsys
      unfold runUnlock at hsys
      simp only [] at hsys
      split_ifs at hsys
      obtain rfl := Option.some.inj hsys
      refine ⟨h.armed.of_timers rfl rfl (fun _ _ ht => ht) rfl, fun j hl => ?_⟩
      have hlj := hlast j
      by_cases hji : j = i
      · subst hji
        simp [hlj] at hl
      · simp [set_ne _ _ hji, hlj] at hl
  · obtain ⟨timer, ht, hst⟩ := Option.bind_eq_some_iff.1 hst
    split_ifs at hst with hdue
    obtain ⟨sys, hsys, rfl⟩ := Option.map_eq_some_iff.1 hst
    obtain rfl := Option.some.inj hsys
    exact h.fire ht hdue rfl rfl (Nat.succ_ne_zero _)

theorem leases_init (h : (timedMachine viewLockTtl).Init s) : Leases viewLockTtl s := by
  obtain ⟨⟨hlockers, -⟩, harmed, hknown⟩ := h
  refine ⟨⟨?_, ?_, ?_⟩, ?_⟩ <;> simp [harmed, hknown, hlockers]

theorem leases (hpos : ∀ i, 0 < viewLockTtl i)
    (h : (timedMachine viewLockTtl).ReachIf (Lasting viewLockTtl) s) : Leases viewLockTtl s :=
  h.invariant (P := Leases viewLockTtl) (fun _ => leases_init)
    fun _ _ _ hl hlast hst => leases_step hpos hl hlast hst

/-- In a run of lasting steps the expiry in the row is later than the clock while a locker has
obtained the lock and not called `unlock()`. -/
theorem leaseLasts (hpos : ∀ i, 0 < viewLockTtl i)
    (h : (timedMachine viewLockTtl).ReachIf (Lasting viewLockTtl) s)
    (hlocked : (s.sys.lockers i).locked = true) :
    ∃ t, lockedTill s.sys.row = some t ∧ s.sys.now < t :=
  ((leases hpos h).lease i hlocked).later (leases hpos h).armed

/-- The locker locks, after half of the two minutes the timer fires, and the clock stops a millisecond
before the lease is over. -/
theorem leaseLasts_prolonged :
    ∃ s : Timed Unit, s.sys.now = 179999 ∧
      ∃ t, lockedTill s.sys.row = some t ∧ s.sys.now < t := by
  let ttl : ℕ → ℤ := fun _ => 120000
  let s₀ : Timed Unit := { sys := { now := 0, row := none, lockers := fun _ => {} } }
  have h0 : (timedMachine ttl).ReachIf (Lasting ttl) s₀ :=
    .init ⟨⟨fun _ => rfl, by simp [s₀]⟩, fun _ => rfl, fun _ => rfl⟩
  have h1 := h0.step (TimedAction.act (.lock 0)) trivial rfl
  have h2 := h1.step (TimedAction.act (.upsert 0)) trivial rfl
  have h3 := h2.step (TimedAction.act (.tick 60000)) (by
    refine ⟨⟨fun handle timer ht => ?_, fun i => ?_⟩, fun i hl => ?_⟩
    · rcases handle with _ | handle <;> cases ht
      decide
    · rcases i with _ | i <;> rfl
    · rcases i with _ | i
      · decide
      · cases hl) rfl
  have h4 := h3.step (TimedAction.fire 0) trivial rfl
  have h5 := h4.step (TimedAction.act (.update 0)) (fun j hj hl => by
    rcases j with _ | j
    · exact absurd rfl hj
    · cases hl) rfl
  have h6 := h5.step (TimedAction.act (.tick 119999)) (by
    refine ⟨⟨fun handle timer ht => ?_, fun i => ?_⟩, fun i hl => ?_⟩
    · rcases handle with _ | handle <;> cases ht
    · rcases i with _ | i <;> rfl
    · rcases i with _ | i
      · decide
      · cases hl) rfl
  exact ⟨_, rfl, leaseLasts (i := 0) (fun _ => by decide) h6 rfl⟩

/-- A second after the timer has fired the lease is over. -/
theorem leaseLasts_fails :
    ¬ ∀ (viewLockTtl : ℕ → ℤ) (s : Timed Unit) (i : ℕ), (∀ i, 0 < viewLockTtl i) →
      (timedMachine viewLockTtl).ReachIf OnTime s → (s.sys.lockers i).locked = true →
      ∃ t, lockedTill s.sys.row = some t ∧ s.sys.now < t := by
  intro hall
  let ttl : ℕ → ℤ := fun _ => 1000
  let s₀ : Timed Unit := { sys := { now := 0, row := none, lockers := fun _ => {} } }
  have h0 : (timedMachine ttl).ReachIf OnTime s₀ :=
    .init ⟨⟨fun _ => rfl, by simp [s₀]⟩, fun _ => rfl, fun _ => rfl⟩
  have h1 := h0.step (TimedAction.act (.lock 0)) trivial rfl
  have h2 := h1.step (TimedAction.act (.upsert 0)) trivial rfl
  have h3 := h2.step (TimedAction.act (.tick 500)) (by
    refine ⟨fun handle timer ht => ?_, fun i => ?_⟩
    · rcases handle with _ | handle <;> cases ht
      decide
    · rcases i with _ | i <;> rfl) rfl
  have h4 := h3.step (TimedAction.fire 0) trivial rfl
  have h5 := h4.step (TimedAction.act (.update 0)) trivial rfl
  have h6 := h5.step (TimedAction.act (.tick 1000)) (by
    refine ⟨fun handle timer ht => ?_, fun i => ?_⟩
    · rcases handle with _ | handle <;> cases ht
    · rcases i with _ | i <;> rfl) rfl
  obtain ⟨t, ht, hlt⟩ := hall ttl _ 0 (fun _ => by decide) h6 rfl
  cases ht
  exact absurd hlt (by decide)

end SqliteViewLocker

end NodeCqrs
