import Mathlib.Data.List.Nodup
import NodeCqrs.Proofs.LockLease
import NodeCqrs.Utils.LockCalls

/-!
# No call of a lock waits for nothing

A `Deferred` leaves the lock only as it is resolved (`Keeps`), so who awaits one awaits one the lock
has, or may go on. The lock that says a global one is being acquired is there as long as a call of
`acquire` waits for a lock that blocks it (`Guarded`); without a lease held nothing blocks it.
-/

namespace NodeCqrs

namespace Lock

/-- The lock has the `Deferred` for a lease. -/
def Blocks (l : Lock) (deferred : ℕ) : Prop :=
  l.globalLock = some deferred ∨ deferred ∈ l.namedLocks.map (·.2)

/-- No two locks have one name, and a named one has a name. -/
def Keyed (l : Lock) : Prop := ("" :: l.namedLocks.map (·.1)).Nodup

/-- What leaves the lock is resolved, and stays so. -/
structure Keeps (l l' : Lock) : Prop where
  resolved : ∀ d ∈ l.resolved, d ∈ l'.resolved
  blocks : ∀ d, l.Blocks d → l'.Blocks d ∨ d ∈ l'.resolved
  acquiring : ∀ d, l.globalLockAcquiringLock = some d →
    l'.globalLockAcquiringLock = some d ∨ d ∈ l'.resolved

theorem Keeps.refl (l : Lock) : Keeps l l :=
  ⟨fun _ => id, fun _ => .inl, fun _ => .inl⟩

theorem Keyed.lookup {l : Lock} (hone : l.Keyed) {p : String × ℕ} (hp : p ∈ l.namedLocks) :
    l.namedLocks.lookup p.1 = some p.2 := by
  rcases hl : l.namedLocks.lookup p.1 with _ | d
  · have hne := List.lookup_eq_none_iff.1 hl p hp
    simp at hne
  · have he : (p.1, d) = p := 
      List.inj_on_of_nodup_map (List.nodup_cons.1 hone).2 (Entries.mem_of_lookup hl) hp rfl
    exact congrArg (some ·.2) he

theorem blocks_of_getAnyBlockingLock {l : Lock} {name : String} {d : ℕ}
    (h : l.getAnyBlockingLock name = some d) : l.Blocks d := by
  unfold getAnyBlockingLock at h
  rcases hg : l.globalLock with _ | d'
  · right
    rw [hg] at h
    change (if name = "" then _ else _) = some d at h
    split at h
    · obtain ⟨p, hp, rfl⟩ := Option.map_eq_some_iff.1 h
      exact List.mem_map_of_mem (List.mem_of_mem_head? hp)
    · exact List.mem_map.2 ⟨_, Entries.mem_of_lookup h, rfl⟩
  · rw [hg] at h
    exact .inl (hg.trans h)

/-- A name is taken only when nothing blocks it. -/
theorem keeps_take {l : Lock} {name : String} (h : l.getAnyBlockingLock name = none) :
    Keeps l (l.take name) := by
  have hg : l.globalLock = none := by
    rcases hg : l.globalLock with _ | d
    · rfl
    · simp [getAnyBlockingLock, hg] at h
  unfold take
  split
  · rename_i hname
    have hnil : l.namedLocks = [] := by simpa [getAnyBlockingLock, hg, hname] using h
    refine ⟨fun d hd => List.mem_append_right _ hd, fun d hd => ?_, fun d hd => .inr ?_⟩
    · rcases hd with hd | hd
      · rw [hg] at hd
        cases hd
      · rw [hnil] at hd
        cases hd
    · simp [hd]
  · rename_i hname
    have hl : l.namedLocks.lookup name = none := by
      simpa [getAnyBlockingLock, hg, hname] using h
    have hfilter : l.namedLocks.filter (·.1 ≠ name) = l.namedLocks := by
      refine List.filter_eq_self.2 fun p hp => ?_
      have hne := List.lookup_eq_none_iff.1 hl p hp
      refine decide_eq_true fun he => ?_
      simp [he] at hne
    refine ⟨fun d => id, fun d hd => .inl ?_, fun d => .inl⟩
    rcases hd with hd | hd
    · exact .inl hd
    · right
      simp only [hfilter, List.map_append, List.mem_append]
      exact .inl hd

theorem Keyed.take {l : Lock} (hone : l.Keyed) (name : String) : (l.take name).Keyed := by
  unfold Lock.take
  split
  · exact hone
  · rename_i hname
    have hsub : ("" :: (l.namedLocks.filter (·.1 ≠ name)).map (·.1)).Nodup :=
      hone.sublist ((List.filter_sublist.map _).cons_cons _)
    show ("" :: (l.namedLocks.filter (·.1 ≠ name) ++ [(name, l.nextDeferred)]).map (·.1)).Nodup
    rw [List.map_append, ← List.cons_append, List.nodup_append]
    refine ⟨hsub, List.nodup_singleton _, ?_⟩
    rintro n hn n' hn' rfl
    obtain rfl := List.mem_singleton.1 hn'
    rcases List.mem_cons.1 hn with hn | hn
    · exact hname hn
    · obtain ⟨p, hp, he⟩ := List.mem_map.1 hn
      exact of_decide_eq_true (List.mem_filter.1 hp).2 he

theorem Keyed.release {l : Lock} (hone : l.Keyed) (name : String) : (l.release name).Keyed := by
  unfold Lock.release
  split
  · exact hone
  · exact hone.sublist ((List.filter_sublist.map _).cons_cons _)

theorem Keyed.keeps_release {l : Lock} (hone : l.Keyed) (name : String) :
    Keeps l (l.release name) := by
  unfold Lock.release
  split
  · refine ⟨fun d hd => List.mem_append_right _ hd, fun d hd => ?_, fun d => .inl⟩
    rcases hd with hd | hd
    · exact .inr (List.mem_append_left _ (by simp [hd]))
    · exact .inl (.inr hd)
  · refine ⟨fun d hd => List.mem_append_right _ hd, fun d hd => ?_, fun d => .inl⟩
    rcases hd with hd | hd
    · exact .inl (.inl hd)
    · obtain ⟨p, hp, rfl⟩ := List.mem_map.1 hd
      by_cases hname : p.1 = name
      · right
        refine List.mem_append_left _ ?_
        simp [← hname, hone.lookup hp]
      · exact .inl (.inr (List.mem_map_of_mem (List.mem_filter.2 ⟨hp, decide_eq_true hname⟩)))

/-- What a call awaits the lock has, or is resolved. -/
def Awaited (l : Lock) : Acquiring → Prop
  | .globalLockAcquiringLock d => l.globalLockAcquiringLock = some d ∨ d ∈ l.resolved
  | .blockingLock d => l.Blocks d ∨ d ∈ l.resolved
  | .acquired => True

theorem Keeps.awaited {l l' : Lock} (h : Keeps l l') {awaits : Acquiring} (ha : l.Awaited awaits) :
    l'.Awaited awaits := by
  cases awaits with
  | globalLockAcquiringLock d => exact ha.elim (h.acquiring d) fun hd => .inr (h.resolved d hd)
  | blockingLock d => exact ha.elim (h.blocks d) fun hd => .inr (h.resolved d hd)
  | acquired => trivial

/-- What a step of an acquiring does to the waits: it waits for what the lock has, and a global one
is being acquired after it only if one was, or it waits itself for what blocks it. -/
structure Waits (l : Lock) (name : String) (l' : Lock) (awaits : Acquiring) : Prop where
  keeps : Keeps l l'
  keyed : l.Keyed → l'.Keyed
  awaited : l'.Awaited awaits
  guarded : ∀ d, l'.globalLockAcquiringLock = some d → l.globalLockAcquiringLock = some d
    ∨ name = "" ∧ ∃ d', awaits = .blockingLock d'

theorem acquireBlocked_waits {l l' : Lock} {name : String} {awaits : Acquiring}
    (h : l.acquireBlocked name = (l', awaits)) : l.Waits name l' awaits := by
  unfold acquireBlocked at h
  split at h
  · rename_i d hd
    obtain ⟨rfl, rfl⟩ := Prod.mk.inj h
    exact ⟨.refl l, id, .inl (blocks_of_getAnyBlockingLock hd), fun _ => .inl⟩
  · rename_i hfree
    obtain ⟨rfl, rfl⟩ := Prod.mk.inj h
    refine ⟨keeps_take hfree, fun hone => hone.take name, trivial, fun d hd => .inl ?_⟩
    unfold take at hd
    split at hd
    · cases hd
    · exact hd

theorem acquire_waits {l l' : Lock} {name : String} {awaits : Acquiring}
    (h : l.acquire name = (l', awaits)) : l.Waits name l' awaits := by
  unfold acquire at h
  split at h
  · rename_i d hd
    obtain ⟨rfl, rfl⟩ := Prod.mk.inj h
    exact ⟨.refl l, id, .inl hd, fun _ => .inl⟩
  · rename_i hnone
    split at h
    · rename_i hname
      have hw := acquireBlocked_waits h
      refine ⟨⟨hw.keeps.resolved, hw.keeps.blocks, fun d hd => ?_⟩, hw.keyed, hw.awaited,
        fun d hd => .inr ⟨hname, ?_⟩⟩
      · rw [hnone] at hd
        cases hd
      · -- taken at once, it would not be being acquired any more
        unfold acquireBlocked at h
        split at h
        · obtain ⟨-, rfl⟩ := Prod.mk.inj h
          exact ⟨_, rfl⟩
        · obtain ⟨rfl, -⟩ := Prod.mk.inj h
          simp [take, hname] at hd
    · exact acquireBlocked_waits h

theorem resume_waits {l l' : Lock} {name : String} {a awaits : Acquiring}
    (h : l.resume name a = some (l', awaits)) : l.Waits name l' awaits := by
  cases a with
  | acquired => cases h
  | globalLockAcquiringLock d =>
    simp only [resume] at h
    split_ifs at h
    exact acquire_waits (Option.some.inj h)
  | blockingLock d =>
    simp only [resume] at h
    split_ifs at h
    exact acquireBlocked_waits (Option.some.inj h)

end Lock

namespace LockLease

/-- Each call awaits what the lock has or what is resolved; and a global one is being acquired as
long as a call of `acquire` with no name waits for what blocks it. -/
structure Guarded (s : Sys) : Prop where
  keyed : s.lock.Keyed
  awaited : ∀ c lease, s.leases c = some lease → s.lock.Awaited lease.awaits
  acquiring : ∀ d, s.lock.globalLockAcquiringLock = some d →
    ∃ c lease d', s.leases c = some lease ∧ lease.name = "" ∧ lease.awaits = .blockingLock d'

/-- A step of the `acquire` of one call. -/
theorem Guarded.waits {s : Sys} (h : Guarded s) {c : ℕ} {lease : LockLease} {lock : Lock}
    (hw : s.lock.Waits lease.name lock lease.awaits)
    (hc : ∀ old d, s.leases c = some old → old.name = "" → old.awaits = .blockingLock d →
      lock.globalLockAcquiringLock = none ∨ ∃ d', lease.awaits = .blockingLock d' ∧ lease.name = "") :
    Guarded ({ s with lock }.set c lease) := by
  refine ⟨hw.keyed h.keyed, fun c' lease' hl => ?_, fun d hd => ?_⟩
  · rw [leases_set] at hl
    split_ifs at hl with hcc
    · obtain rfl := Option.some.inj hl
      exact hw.awaited
    · exact hw.keeps.awaited (h.awaited c' lease' hl)
  · rcases hw.guarded d hd with hold | ⟨hname, d', hd'⟩
    · obtain ⟨c', lease', d', hl, hn, ha⟩ := h.acquiring d hold
      by_cases hcc : c' = c
      · subst hcc
        rcases hc lease' d' hl hn ha with hnone | ⟨d'', hb, hname⟩
        · rw [show lock.globalLockAcquiringLock = some d from hd] at hnone
          cases hnone
        · exact ⟨c', lease, d'', by simp [leases_set], hname, hb⟩
      · exact ⟨c', lease', d', by rw [leases_set, if_neg hcc]; exact hl, hn, ha⟩
    · exact ⟨c, lease, d', by simp [leases_set], hname, hd'⟩

theorem guarded_step {s s' : Sys} {a : Action} (h : Guarded s) (hst : step s a = some s') :
    Guarded s' := by
  cases a with
  | acquire c name =>
    unfold step at hst
    rcases hc : s.leases c with _ | lease
    · simp only [hc, Option.some.injEq] at hst
      subst hst
      refine h.waits (Lock.acquire_waits rfl) fun old d hl => ?_
      rw [hc] at hl
      cases hl
    · simp [hc] at hst
  | resume c =>
    obtain ⟨lease, hc, hst⟩ := Option.bind_eq_some_iff.1 hst
    obtain ⟨⟨lock, awaits⟩, hr, rfl⟩ := Option.map_eq_some_iff.1 hst
    refine h.waits (Lock.resume_waits hr) fun old d hl hn ha => ?_
    obtain rfl : lease = old := Option.some.inj (hc.symm.trans hl)
    -- it waits for another lock that blocks it, or takes the global one
    rw [ha] at hr
    simp only [Lock.resume] at hr
    split_ifs at hr
    have hb := Option.some.inj hr
    unfold Lock.acquireBlocked at hb
    split at hb
    · obtain ⟨-, rfl⟩ := Prod.mk.inj hb
      exact .inr ⟨_, rfl, hn⟩
    · obtain ⟨rfl, -⟩ := Prod.mk.inj hb
      left
      rw [hn]
      rfl
  | release c =>
    obtain ⟨lease, hc, hst⟩ := Option.bind_eq_some_iff.1 hst
    split_ifs at hst with hheld
    obtain rfl := Option.some.inj hst
    have hk := h.keyed.keeps_release lease.name
    have hacq : lease.awaits = .acquired := by
      simpa using (Bool.and_eq_true_iff.1 hheld).1
    refine ⟨h.keyed.release _, fun c' lease' hl => ?_, fun d hd => ?_⟩
    · rw [leases_set] at hl
      split_ifs at hl with hcc
      · obtain rfl := Option.some.inj hl
        rw [show ({ lease with released := true } : LockLease).awaits = .acquired from hacq]
        trivial
      · exact hk.awaited (h.awaited c' lease' hl)
    · have hold : s.lock.globalLockAcquiringLock = some d := by
        have hd' : (s.lock.release lease.name).globalLockAcquiringLock = some d := hd
        unfold Lock.release at hd'
        split at hd' <;> exact hd'
      obtain ⟨c', lease', d', hl, hn, ha⟩ := h.acquiring d hold
      refine ⟨c', lease', d', ?_, hn, ha⟩
      rw [leases_set, if_neg]
      · exact hl
      · rintro rfl
        obtain rfl : lease = lease' := Option.some.inj (hc.symm.trans hl)
        rw [hacq] at ha
        cases ha

theorem keeps_step {s s' : Sys} {a : Action} (h : Guarded s) (hst : step s a = some s') :
    Lock.Keeps s.lock s'.lock := by
  cases a with
  | acquire c name =>
    unfold step at hst
    rcases hc : s.leases c with _ | lease
    · simp only [hc, Option.some.injEq] at hst
      subst hst
      exact (Lock.acquire_waits rfl).keeps
    · simp [hc] at hst
  | resume c =>
    obtain ⟨lease, -, hst⟩ := Option.bind_eq_some_iff.1 hst
    obtain ⟨⟨lock, awaits⟩, hr, rfl⟩ := Option.map_eq_some_iff.1 hst
    exact (Lock.resume_waits hr).keeps
  | release c =>
    obtain ⟨lease, -, hst⟩ := Option.bind_eq_some_iff.1 hst
    split_ifs at hst
    obtain rfl := Option.some.inj hst
    exact h.keyed.keeps_release lease.name

theorem guarded_init : Guarded {} := by
  constructor
  · exact List.nodup_singleton _
  · intro c lease h
    cases h
  · intro d h
    cases h

end LockLease

namespace LockCalls

open Machine (ReachIf)

/-- The invariants of the leases, and each `waitForUnlock` waits for what blocks its name or did. -/
structure Inv (s : Sys) : Prop where
  leased : LockLease.Inv s.leases
  guarded : LockLease.Guarded s.leases
  awaited : ∀ c wait d, s.waits c = some wait → wait.awaits = some d →
    s.lock.Blocks d ∨ d ∈ s.lock.resolved

theorem Inv.waitForUnlock {s : Sys} (h : Inv s) (c : ℕ) (name : String) :
    Inv (s.waitForUnlock c name) := by
  refine ⟨h.leased, h.guarded, fun c' wait d hw hd => ?_⟩
  by_cases hc : c' = c
  · subst hc
    have hset : (s.waitForUnlock c' name).waits c'
        = some { name, awaits := s.lock.getAnyBlockingLock name } := Function.update_self ..
    obtain rfl := Option.some.inj (hset.symm.trans hw)
    exact .inl (Lock.blocks_of_getAnyBlockingLock hd)
  · exact h.awaited c' wait d ((Function.update_of_ne hc ..).symm.trans hw) hd

theorem inv_step {s s' : Sys} {a : Action} (h : Inv s) (hst : step s a = some s') : Inv s' := by
  cases a with
  | lease a =>
    obtain ⟨leases, hl, rfl⟩ := Option.map_eq_some_iff.1 hst
    have hk := LockLease.keeps_step h.guarded hl
    refine ⟨LockLease.inv_step h.leased hl, LockLease.guarded_step h.guarded hl,
      fun c wait d hw hd => ?_⟩
    exact (h.awaited c wait d hw hd).elim (hk.blocks d) fun hd => .inr (hk.resolved d hd)
  | waitForUnlock c name =>
    simp only [step] at hst
    split_ifs at hst
    exact Option.some.inj hst ▸ h.waitForUnlock c name
  | resume c =>
    simp only [step] at hst
    split at hst
    · split_ifs at hst
      exact Option.some.inj hst ▸ h.waitForUnlock c _
    · cases hst

theorem inv_of_reach {s : Sys} (h : machine.Reach s) : Inv s := by
  refine ReachIf.invariant (P := Inv) (fun s (h0 : s = {}) => ?_)
    (fun _ _ _ hi _ hst => inv_step hi hst) h
  subst h0
  refine ⟨LockLease.inv_init, LockLease.guarded_init, fun c wait d hw => ?_⟩
  cases hw

theorem Inv.installed {s : Sys} (h : Inv s) {d : ℕ} (hd : s.Awaits d) :
    s.lock.Installed d ∨ d ∈ s.lock.resolved := by
  cases hd with
  | acquiring c lease hl ha =>
    have hw := h.guarded.awaited c lease hl
    rw [ha] at hw
    exact hw.imp_left .inl
  | blocked c lease hl ha =>
    have hw := h.guarded.awaited c lease hl
    rw [ha] at hw
    exact hw.imp_left .inr
  | unlock c wait hw ha => exact (h.awaited c wait d hw ha).imp_left .inr

/-- What blocks a name is held by a lease. -/
theorem Inv.holds_of_blocks {s : Sys} (h : Inv s) {d : ℕ} (hd : s.lock.Blocks d) :
    ∃ c name, s.leases.Holds c name := by
  have hheld : ∃ name, s.lock.holds name := by
    rcases hd with hd | hd
    · exact ⟨"", by simp [Lock.holds, hd]⟩
    · obtain ⟨p, hp, -⟩ := List.mem_map.1 hd
      have hname : p.1 ≠ "" := fun hname =>
        (List.nodup_cons.1 h.guarded.keyed).1 (hname ▸ List.mem_map_of_mem hp)
      exact ⟨p.1, by simpa [Lock.holds, hname] using ⟨p.2, hp⟩⟩
  obtain ⟨name, hname⟩ := hheld
  obtain ⟨c, hc⟩ := (h.leased.leased name).1 hname
  exact ⟨c, name, hc⟩

/-- With no lease held, the lock a call awaits is no longer there: what it awaits is resolved. -/
theorem Inv.resolved {s : Sys} (h : Inv s) (hfree : ∀ c name, ¬ s.leases.Holds c name)
    (hsome : ∃ d, s.Awaits d) : ∃ d, s.Awaits d ∧ d ∈ s.lock.resolved := by
  have hblocks : ∀ d, ¬ s.lock.Blocks d := fun d hd =>
    let ⟨c, name, hc⟩ := h.holds_of_blocks hd
    hfree c name hc
  obtain ⟨d, hd⟩ := hsome
  rcases h.installed hd with (hacq | hblocked) | hres
  · -- the global `acquire` under way waits for a lock itself
    obtain ⟨c, lease, d', hl, -, ha⟩ := h.guarded.acquiring d hacq
    have hd' : s.Awaits d' := .blocked c lease hl ha
    have hw := h.guarded.awaited c lease hl
    rw [ha] at hw
    exact ⟨d', hd', hw.resolve_left (hblocks d')⟩
  · exact absurd hblocked (hblocks d)
  · exact ⟨d, hd, hres⟩

/-- No wake-up is lost, in any interleaving: each suspended call waits for a `Deferred` of the lock
or for a resolved one; and if no lease is held and no call can go on, none is suspended. -/
theorem no_wakeup_lost {s : Sys} (h : machine.Reach s) :
    (∀ d, s.Awaits d → s.lock.Installed d ∨ d ∈ s.lock.resolved) ∧
      ((∀ c name, ¬ s.leases.Holds c name) → (∀ d, s.Awaits d → d ∉ s.lock.resolved) →
        (∀ c lease, s.leases.leases c = some lease → lease.awaits = .acquired) ∧
          ∀ c wait, s.waits c = some wait → wait.awaits = none) := by
  have hi := inv_of_reach h
  refine ⟨fun d => hi.installed, fun hfree hidle => ?_⟩
  have hnone : ∀ d, ¬ s.Awaits d := fun d hd =>
    let ⟨d', hd', hres⟩ := hi.resolved hfree ⟨d, hd⟩
    hidle d' hd' hres
  refine ⟨fun c lease hl => ?_, fun c wait hw => ?_⟩
  · rcases ha : lease.awaits with d | d | -
    · exact absurd (.acquiring c lease hl ha) (hnone d)
    · exact absurd (.blocked c lease hl ha) (hnone d)
    · rfl
  · rcases ha : wait.awaits with - | d
    · rfl
    · exact absurd (.unlock c wait hw ha) (hnone d)

/-- A global `acquire` and a `waitForUnlock` behind a named lease: both wait for it while it is held,
and neither is suspended once all leases are released and both have gone on. -/
theorem no_wakeup_lost_named :
    (∃ s : Sys, s.Awaits 0 ∧ (s.lock.Installed 0 ∨ 0 ∈ s.lock.resolved)) ∧
      ∃ s : Sys, (s.leases.leases 1).isSome ∧ (s.waits 0).isSome ∧
        (∀ c lease, s.leases.leases c = some lease → lease.awaits = .acquired) ∧
        ∀ c wait, s.waits c = some wait → wait.awaits = none := by
  constructor
  · obtain ⟨s, hs, hw⟩ : ∃ s, machine.run {} [.lease (.acquire 0 "a"), .lease (.acquire 1 ""),
        .waitForUnlock 0 "a"] = some s ∧ s.waits 0 = some { name := "a", awaits := some 0 } :=
      ⟨_, rfl, by decide⟩
    have hd : s.Awaits 0 := .unlock 0 _ hw rfl
    exact ⟨s, hd, (no_wakeup_lost (Machine.reach_of_run rfl hs)).1 0 hd⟩
  · obtain ⟨s, hs, hl, hw⟩ : ∃ s, machine.run {} [.lease (.acquire 0 "a"), .lease (.acquire 1 ""),
        .waitForUnlock 0 "a", .lease (.release 0), .resume 0, .lease (.resume 1),
        .lease (.release 1)] = some s ∧
        (s.leases.leases = fun c => if c = 1 then some ⟨"", .acquired, true⟩
          else if c = 0 then some ⟨"a", .acquired, true⟩ else none) ∧
        (s.waits = fun c => if c = 0 then some ⟨"a", none⟩ else none) := by
      refine ⟨_, rfl, ?_, ?_⟩
      · funext c
        rcases c with _ | _ | c <;> rfl
      · funext c
        rcases c with _ | c <;> rfl
    have hleased : ∀ c lease, s.leases.leases c = some lease →
        lease.awaits = .acquired ∧ lease.held = false := by
      intro c lease hc
      simp only [hl] at hc
      split_ifs at hc <;> exact Option.some.inj hc ▸ ⟨rfl, rfl⟩
    have hidle : ∀ d, s.Awaits d → d ∉ s.lock.resolved := by
      rintro d (⟨c, lease, hc, hd⟩ | ⟨c, lease, hc, hd⟩ | ⟨c, wait, hc, hd⟩)
      · cases hd.symm.trans (hleased c lease hc).1
      · cases hd.symm.trans (hleased c lease hc).1
      · simp only [hw] at hc
        split_ifs at hc
        cases (congrArg (·.awaits) (Option.some.inj hc)).trans hd
    refine ⟨s, by simp [hl], by simp [hw],
      (no_wakeup_lost (Machine.reach_of_run rfl hs)).2 ?_ hidle⟩
    rintro c name ⟨lease, hc, hheld, -⟩
    cases hheld.symm.trans (hleased c lease hc).2

end LockCalls

end NodeCqrs
