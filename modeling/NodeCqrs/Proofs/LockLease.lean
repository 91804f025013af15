import NodeCqrs.Utils.LockLease
import NodeCqrs.Proofs.Lock

/-!
# At most one lease per name

The lock is held under a name as long as one lease of the name is (`Inv`): a lease is granted only
where the name is free, and a release frees the name of its own lease, because no other is held
under it. A global lease and a named one are never held together, for each is granted only where
the other kind is not held (`Apart`).
-/

namespace NodeCqrs

namespace Lock

/-- The global lock is not held together with a named one. -/
def Apart (l : Lock) : Prop := l.holds "" → ∀ n, l.holds n → n = ""

theorem holds_of_namedLocks_nil {l : Lock} {n : String} (h : l.namedLocks = []) (hn : l.holds n) :
    n = "" := by
  by_contra hne
  simp [holds, hne, h] at hn

theorem apart_of_free {l : Lock} {name : String} (h : l.getAnyBlockingLock name = none) :
    (l.take name).Apart := by
  have hg : l.globalLock = none := by
    rcases hg : l.globalLock with _ | d
    · rfl
    · simp [getAnyBlockingLock, hg] at h
  intro hglobal n hn
  rw [take_holds] at hglobal hn
  rcases hglobal with hname | hglobal
  · subst hname
    rcases hn with hn | hn
    · exact hn
    · refine holds_of_namedLocks_nil ?_ hn
      simpa [getAnyBlockingLock, hg] using h
  · exact absurd hg (by simpa [holds] using hglobal)

theorem Apart.acquireBlocked {l l' : Lock} {name : String} {awaits : Acquiring} (ha : l.Apart)
    (h : l.acquireBlocked name = (l', awaits)) : l'.Apart := by
  unfold Lock.acquireBlocked at h
  split at h
  · obtain ⟨rfl, -⟩ := Prod.mk.inj h
    exact ha
  · rename_i hfree
    obtain ⟨rfl, -⟩ := Prod.mk.inj h
    exact apart_of_free hfree

theorem Apart.acquire {l l' : Lock} {name : String} {awaits : Acquiring} (ha : l.Apart)
    (h : l.acquire name = (l', awaits)) : l'.Apart := by
  unfold Lock.acquire at h
  split at h
  · obtain ⟨rfl, -⟩ := Prod.mk.inj h
    exact ha
  · split_ifs at h
    · refine Apart.acquireBlocked ?_ h
      exact ha
    · exact ha.acquireBlocked h

theorem Apart.resume {l l' : Lock} {name : String} {a awaits : Acquiring} (ha : l.Apart)
    (h : l.resume name a = some (l', awaits)) : l'.Apart := by
  unfold Lock.resume at h
  cases a with
  | acquired => cases h
  | globalLockAcquiringLock d =>
    simp only [] at h
    split_ifs at h
    exact ha.acquire (Option.some.inj h)
  | blockingLock d =>
    simp only [] at h
    split_ifs at h
    exact ha.acquireBlocked (Option.some.inj h)

theorem Apart.release {l : Lock} (ha : l.Apart) (name : String) : (l.release name).Apart := by
  intro hglobal n hn
  rw [release_holds] at hglobal hn
  exact ha hglobal.2 n hn.2

end Lock

namespace LockLease

open Machine (ReachIf)

@[simp] theorem set_lock (s : Sys) (c : ℕ) (lease : LockLease) : (s.set c lease).lock = s.lock :=
  rfl

theorem holds_set (s : Sys) (c c' : ℕ) (lease : LockLease) (n : String) :
    (s.set c lease).Holds c' n ↔ if c' = c then lease.held ∧ lease.name = n else s.Holds c' n := by
  by_cases hc : c' = c
  · simp [Sys.Holds, Sys.set, hc]
  · simp [Sys.Holds, Sys.set, hc]

/-- What is held of the lock is held by one lease. -/
structure Inv (s : Sys) : Prop where
  apart : s.lock.Apart
  leased : ∀ n, s.lock.holds n ↔ ∃ c, s.Holds c n
  one : ∀ c c' n, s.Holds c n → s.Holds c' n → c = c'
  granted : ∀ c lease, s.leases c = some lease → lease.released → lease.awaits = .acquired

theorem leases_set (s : Sys) (c c' : ℕ) (lease : LockLease) :
    (s.set c lease).leases c' = if c' = c then some lease else s.leases c' := by
  by_cases hc : c' = c <;> simp [Sys.set, hc]

theorem inv_init : Inv {} := by
  constructor
  · intro h
    simp [Lock.holds] at h
  · intro n
    by_cases hn : n = "" <;> simp [Lock.holds, Sys.Holds, hn]
  · rintro c c' n ⟨lease, h, -⟩
    cases h
  · intro c lease h
    cases h

/-- A step of an `acquire`: the call holds nothing before, and the name if it is granted. -/
theorem Inv.grants {s : Sys} (h : Inv s) {c : ℕ} {lease : LockLease} {lock : Lock}
    (hc : ∀ n, ¬ s.Holds c n) (hl : lease.released = false) (ha : lock.Apart)
    (hg : s.lock.Grants lease.name lock lease.awaits) : Inv ({ s with lock }.set c lease) := by
  have hheld : lease.held ↔ lease.awaits = .acquired := by simp [held, hl]
  have hset : ∀ c' n, ({ s with lock }.set c lease).Holds c' n ↔
      if c' = c then lease.awaits = .acquired ∧ lease.name = n else s.Holds c' n := by
    intro c' n
    rw [holds_set, hheld]
    rfl
  refine ⟨ha, fun n => ?_, fun c₁ c₂ n h₁ h₂ => ?_, fun c' lease' hl' hr => ?_⟩
  · show lock.holds n ↔ _
    by_cases hn : n = lease.name
    · subst hn
      by_cases hacq : lease.awaits = .acquired
      · exact iff_of_true (hg.held hacq) ⟨c, (hset ..).2 (by simp [hacq])⟩
      · rw [hg.same hacq, h.leased]
        refine exists_congr fun c' => ?_
        rw [hset]
        split_ifs with hcc
        · simp [hcc, hc, hacq]
        · rfl
    · rw [hg.others n hn, h.leased]
      refine exists_congr fun c' => ?_
      rw [hset]
      split_ifs with hcc
      · simp [hcc, hc, Ne.symm hn]
      · rfl
  · -- the name of a lease granted now is held by no other
    have hfree : lease.awaits = .acquired → ∀ c', ¬ s.Holds c' lease.name :=
      fun hacq c' hc' => hg.free hacq ((h.leased _).2 ⟨c', hc'⟩)
    rw [hset] at h₁ h₂
    split_ifs at h₁ h₂ with hc₁ hc₂ hc₂
    · rw [hc₁, hc₂]
    · exact absurd (h₁.2 ▸ h₂) (hfree h₁.1 _)
    · exact absurd (h₂.2 ▸ h₁) (hfree h₂.1 _)
    · exact h.one _ _ _ h₁ h₂
  · rw [leases_set] at hl'
    split_ifs at hl' with hcc
    · obtain rfl := Option.some.inj hl'
      simp [hl] at hr
    · exact h.granted c' lease' hl' hr

/-- A release frees its name, which no other lease holds. -/
theorem Inv.release {s : Sys} (h : Inv s) {c : ℕ} {lease : LockLease}
    (hc : s.leases c = some lease) (hheld : lease.held) :
    Inv ({ s with lock := s.lock.release lease.name }.set c { lease with released := true }) := by
  have hset : ∀ c' n, ({ s with lock := s.lock.release lease.name }.set c
      { lease with released := true }).Holds c' n ↔ c' ≠ c ∧ s.Holds c' n := by
    intro c' n
    rw [holds_set]
    split_ifs with hcc
    · simp [held, hcc]
    · exact ⟨fun hs => ⟨hcc, hs⟩, And.right⟩
  have hown : s.Holds c lease.name := ⟨lease, hc, hheld, rfl⟩
  refine ⟨h.apart.release _, fun n => ?_, fun c₁ c₂ n h₁ h₂ => ?_, fun c' lease' hl' hr => ?_⟩
  · show (s.lock.release lease.name).holds n ↔ _
    rw [Lock.release_holds, h.leased]
    constructor
    · rintro ⟨hn, c', hc'⟩
      refine ⟨c', (hset ..).2 ⟨?_, hc'⟩⟩
      rintro rfl
      obtain ⟨lease', hl, -, rfl⟩ := hc'
      obtain rfl : lease = lease' := Option.some.inj (hc.symm.trans hl)
      exact hn rfl
    · rintro ⟨c', hc'⟩
      obtain ⟨hne, hc'⟩ := (hset ..).1 hc'
      exact ⟨fun hn => hne (h.one _ _ _ (hn ▸ hc') hown), c', hc'⟩
  · exact h.one _ _ _ ((hset ..).1 h₁).2 ((hset ..).1 h₂).2
  · rw [leases_set] at hl'
    split_ifs at hl' with hcc
    · obtain rfl := Option.some.inj hl'
      simpa [held] using (Bool.and_eq_true_iff.1 hheld).1
    · exact h.granted c' lease' hl' hr

theorem inv_step {s s' : Sys} {a : Action} (h : Inv s) (hst : step s a = some s') : Inv s' := by
  cases a with
  | acquire c name =>
    unfold step at hst
    rcases hc : s.leases c with _ | lease
    · simp only [hc, Option.some.injEq] at hst
      subst hst
      exact h.grants (fun n ⟨_, hl, _⟩ => by simp [hc] at hl) rfl (h.apart.acquire rfl)
        (Lock.acquire_spec rfl)
    · simp [hc] at hst
  | resume c =>
    obtain ⟨lease, hc, hst⟩ := Option.bind_eq_some_iff.1 hst
    obtain ⟨⟨lock, awaits⟩, hr, rfl⟩ := Option.map_eq_some_iff.1 hst
    have hne := Lock.resume_ne_acquired hr
    refine h.grants (fun n ⟨lease', hl, hheld, _⟩ => ?_) ?_ (h.apart.resume hr)
      (Lock.resume_spec hr)
    · obtain rfl : lease = lease' := Option.some.inj (hc.symm.trans hl)
      simp [held, hne] at hheld
    · show lease.released = false
      by_contra hreleased
      exact hne (h.granted c lease hc (by simpa using hreleased))
  | release c =>
    obtain ⟨lease, hc, hst⟩ := Option.bind_eq_some_iff.1 hst
    split_ifs at hst with hheld
    exact Option.some.inj hst ▸ h.release hc hheld

/-- In any interleaving, at most one lease of a name and at most one global lease is held, and no
named one while a global one is. -/
theorem leases_exclude {s : Sys} (h : machine.Reach s) :
    (∀ c c' name, s.Holds c name → s.Holds c' name → c = c') ∧
      ∀ c, s.Holds c "" → ∀ c' name, s.Holds c' name → name = "" := by
  have hi : Inv s := ReachIf.invariant (P := Inv) (fun s (h0 : s = {}) => h0 ▸ inv_init)
    (fun _ _ _ hi _ hst => inv_step hi hst) h
  refine ⟨hi.one, fun c hc c' name hc' => ?_⟩
  exact hi.apart ((hi.leased _).2 ⟨c, hc⟩) name ((hi.leased _).2 ⟨c', hc'⟩)

/-- A global `acquire` that waits for a named lease, and a named one that waits for it. -/
theorem leases_exclude_waiting :
    ∃ s : Sys, s.Holds 1 "" ∧
      (s.leases 2).map (·.awaits) = some (.blockingLock 2) ∧
      ∀ c' name, s.Holds c' name → name = "" := by
  obtain ⟨s, hs, hl, hh⟩ : ∃ s, machine.run {} [.acquire 0 "a", .acquire 1 "", .acquire 2 "b",
      .release 0, .resume 1, .resume 2] = some s ∧
      (s.leases 2).map (·.awaits) = some (.blockingLock 2) ∧ s.Holds 1 "" :=
    ⟨_, rfl, by decide, ⟨"", .acquired, false⟩, by decide, by decide, rfl⟩
  exact ⟨s, hh, hl, (leases_exclude (Machine.reach_of_run rfl hs)).2 1 hh⟩

end LockLease

end NodeCqrs
