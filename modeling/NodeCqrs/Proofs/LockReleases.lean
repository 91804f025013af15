import NodeCqrs.Proofs.LockLease
import NodeCqrs.Utils.LockReleases

/-!
# Whose lock a release ends

A lease tells the lock its name, not its `Deferred`: released again, it ends the lock of whoever has
the name by then. So the releases end their own locks if and only if no lease is released again
while its name is locked (`ends_own_iff`).
-/

namespace NodeCqrs

namespace Lock

variable {l : Lock} {name : String}

instance (l : Lock) (name : String) : Decidable (l.holds name) :=
  inferInstanceAs (Decidable
    (if name = "" then l.globalLock ≠ none else name ∈ l.namedLocks.map (·.1)))

/-- There is nothing to release. -/
theorem release_of_not_holds (h : ¬ l.holds name) : l.release name = l := by
  unfold holds at h
  unfold release
  split_ifs at h ⊢ with hname
  · have hg : l.globalLock = none := not_not.1 h
    rw [hg]
    cases l
    simp_all
  · have hfilter : l.namedLocks.filter (·.1 ≠ name) = l.namedLocks := by
      refine List.filter_eq_self.2 fun p hp => decide_eq_true fun he => ?_
      exact h (List.mem_map.2 ⟨p, hp, he⟩)
    have hlookup : l.namedLocks.lookup name = none := by
      refine List.lookup_eq_none_iff.2 fun p hp => ?_
      by_contra he
      exact h (List.mem_map.2 ⟨p, hp, (by simpa using he : name = p.1).symm⟩)
    rw [hfilter, hlookup]
    rfl

end Lock

namespace LockReleases

open LockLease (leases_set holds_set)

variable {s s' : Sys} {c : ℕ} {name : String}

/-- The releases so far have ended their own locks. -/
def EndsOwn (s : Sys) : Prop := ∀ p ∈ s.ended, p.1 = p.2

/-- The call does not release a lease again while its name is locked. -/
def NotAgain (s : Sys) : Action → Prop
  | .release c => ∀ lease ∈ s.leases.leases c, lease.released → ¬ s.leases.lock.holds lease.name
  | .acquire _ _ | .resume _ => True

/-- Who owns a lock is who holds its lease, as long as the releases have ended their own locks. -/
structure Owned (s : Sys) : Prop where
  inv : LockLease.Inv s.leases
  owner : ∀ name c, s.owner name = some c ↔ s.leases.Holds c name

theorem owned_init : Owned {} := by
  refine ⟨LockLease.inv_init, fun name c => iff_of_false (by simp) ?_⟩
  rintro ⟨lease, h, -⟩
  cases h

/-- The `acquire` of a call that held nothing goes on. -/
theorem Owned.settle (ho : Owned s) {lease : LockLease} {lock : Lock}
    (hc : ∀ n, ¬ s.leases.Holds c n) (hr : lease.released = false)
    (hg : s.leases.lock.Grants lease.name lock lease.awaits)
    (hinv : LockLease.Inv ({ s.leases with lock }.set c lease)) :
    Owned (s.settle c ({ s.leases with lock }.set c lease)) := by
  have hlease : ({ s.leases with lock }.set c lease).leases c = some lease := by
    rw [leases_set, if_pos rfl]
  have hheld : lease.held ↔ lease.awaits = .acquired := by simp [LockLease.held, hr]
  have hholds : ∀ c' n, ({ s.leases with lock }.set c lease).Holds c' n
      ↔ if c' = c then lease.awaits = .acquired ∧ lease.name = n else s.leases.Holds c' n := by
    intro c' n
    rw [holds_set, hheld]
    rfl
  unfold Sys.settle
  rw [hlease]
  split
  · next name _ heq =>
    obtain rfl := Option.some.inj heq
    refine ⟨hinv, fun n c' => ?_⟩
    have hfree : ∀ c', ¬ s.leases.Holds c' name := fun c' hc' =>
      hg.free rfl ((ho.inv.leased _).2 ⟨c', hc'⟩)
    show Function.update s.owner name (some c) n = some c' ↔ _
    rw [hholds]
    by_cases hn : n = name
    · rw [hn, Function.update_self]
      split_ifs with hcc
      · simp [hcc]
      · exact iff_of_false (fun h => hcc (Option.some.inj h).symm) (hfree c')
    · rw [Function.update_of_ne hn, ho.owner]
      split_ifs with hcc
      · exact iff_of_false (hcc ▸ hc n) fun h => hn h.2.symm
      · rfl
  · next hnot =>
    refine ⟨hinv, fun n c' => ?_⟩
    show s.owner n = some c' ↔ _
    rw [hholds, ho.owner]
    split_ifs with hcc
    · refine iff_of_false (hcc ▸ hc n) fun h => ?_
      obtain ⟨name, awaits, released⟩ := lease
      obtain rfl : awaits = .acquired := h.1
      exact hnot name released rfl
    · rfl

theorem ended_settle (s : Sys) (c : ℕ) (leases : LockLease.Sys) :
    (s.settle c leases).ended = s.ended := by
  unfold Sys.settle
  split <;> rfl

/-- The first release of a lease ends its own lock. -/
theorem Owned.release (ho : Owned s) {lease : LockLease} (hc : s.leases.leases c = some lease)
    (hheld : lease.held) :
    Owned (s.release c lease) ∧ (s.release c lease).ended = s.ended ++ [(c, c)] := by
  have hown : s.leases.Holds c lease.name := ⟨lease, hc, hheld, rfl⟩
  refine ⟨⟨ho.inv.release hc hheld, fun n c' => ?_⟩, ?_⟩
  · show Function.update s.owner lease.name none n = some c' ↔ ({ s.leases with
      lock := s.leases.lock.release lease.name }.set c { lease with released := true }).Holds c' n
    rw [holds_set]
    by_cases hn : n = lease.name
    · rw [hn, Function.update_self]
      refine iff_of_false (by simp) fun h => ?_
      split_ifs at h with hcc
      · simp [LockLease.held] at h
      · exact hcc (ho.inv.one _ _ _ h hown)
    · rw [Function.update_of_ne hn, ho.owner]
      split_ifs with hcc
      · refine iff_of_false (fun h => ?_) fun h => hn h.2.symm
        obtain ⟨lease', hl, -, rfl⟩ := h
        rw [hcc, hc] at hl
        obtain rfl := Option.some.inj hl
        exact hn rfl
      · rfl
  · show s.ended ++ (s.owner lease.name).toList.map (c, ·) = _
    rw [(ho.owner _ _).2 hown]
    rfl

/-- With the name free there is nothing for a lease that is released again to end. -/
theorem Owned.release_again (ho : Owned s) {lease : LockLease}
    (hc : s.leases.leases c = some lease) (hr : lease.released = true)
    (hfree : ¬ s.leases.lock.holds lease.name) : s.release c lease = s := by
  have hnone : s.owner lease.name = none := by
    by_contra hne
    obtain ⟨o, hown⟩ := Option.ne_none_iff_exists'.1 hne
    exact hfree ((ho.inv.leased _).2 ⟨o, (ho.owner _ _).1 hown⟩)
  have hsame : { lease with released := true } = lease := by
    cases lease
    simp_all
  obtain ⟨leases, owner, ended⟩ := s
  obtain ⟨lock, leases⟩ := leases
  simp only [Sys.release, Lock.release_of_not_holds hfree, hsame, LockLease.Sys.set]
  congr
  · exact hc ▸ Function.update_eq_self ..
  · exact hnone ▸ Function.update_eq_self ..
  · rw [show owner lease.name = none from hnone]
    exact List.append_nil _

/-- Someone else owns the lock of a name that is locked. -/
theorem Owned.not_endsOwn (ho : Owned s) {lease : LockLease}
    (hc : s.leases.leases c = some lease) (hr : lease.released = true)
    (hlocked : s.leases.lock.holds lease.name) : ¬ EndsOwn (s.release c lease) := by
  obtain ⟨o, hown⟩ := (ho.inv.leased _).1 hlocked
  intro hends
  have hmem : (c, o) ∈ (s.release c lease).ended := by
    refine List.mem_append_right _ ?_
    rw [(ho.owner _ _).2 hown]
    exact List.mem_singleton_self _
  obtain rfl : c = o := hends _ hmem
  obtain ⟨lease', hl, hheld, -⟩ := hown
  obtain rfl := Option.some.inj (hc.symm.trans hl)
  simp [LockLease.held, hr] at hheld

/-- A step has ended its own lock if it does not release a lease again while its name is locked, and
another's if it does. -/
theorem Owned.step {a : Action} (ho : Owned s) (he : EndsOwn s) (hst : step s a = some s') :
    (NotAgain s a ∧ EndsOwn s' ∧ Owned s') ∨ (¬ NotAgain s a ∧ ¬ EndsOwn s') := by
  cases a with
  | acquire c name =>
    obtain ⟨leases, hl, rfl⟩ := Option.map_eq_some_iff.1 hst
    have hinv := LockLease.inv_step ho.inv hl
    refine .inl ⟨trivial, by rw [EndsOwn, ended_settle]; exact he, ?_⟩
    rcases hc : s.leases.leases c with _ | lease
    · simp only [LockLease.step, hc, Option.some.injEq] at hl
      subst hl
      exact ho.settle (fun n ⟨_, hl, _⟩ => by simp [hc] at hl) rfl (Lock.acquire_spec rfl) hinv
    · simp [LockLease.step, hc] at hl
  | resume c =>
    obtain ⟨leases, hl, rfl⟩ := Option.map_eq_some_iff.1 hst
    have hinv := LockLease.inv_step ho.inv hl
    refine .inl ⟨trivial, by rw [EndsOwn, ended_settle]; exact he, ?_⟩
    obtain ⟨lease, hc, hl⟩ := Option.bind_eq_some_iff.1 hl
    obtain ⟨⟨lock, awaits⟩, hr, rfl⟩ := Option.map_eq_some_iff.1 hl
    have hne := Lock.resume_ne_acquired hr
    refine ho.settle (fun n ⟨lease', hl, hheld, _⟩ => ?_) ?_
      (Lock.resume_spec hr) hinv
    · obtain rfl : lease = lease' := Option.some.inj (hc.symm.trans hl)
      simp [LockLease.held, hne] at hheld
    · show lease.released = false
      by_contra hreleased
      exact hne (ho.inv.granted c lease hc (by simpa using hreleased))
  | release c =>
    simp only [LockReleases.step] at hst
    split at hst
    · next lease hc =>
      split_ifs at hst with hacq
      obtain rfl := Option.some.inj hst
      have hnot : NotAgain s (.release c) ↔
          (lease.released → ¬ s.leases.lock.holds lease.name) := by
        simp [NotAgain, hc]
      by_cases hr : lease.released = true
      · by_cases hfree : s.leases.lock.holds lease.name
        · exact .inr ⟨fun hn => hnot.1 hn hr hfree, ho.not_endsOwn hc hr hfree⟩
        · rw [ho.release_again hc hr hfree]
          exact .inl ⟨hnot.2 fun _ => hfree, he, ho⟩
      · obtain ⟨ho', hended⟩ := ho.release hc (by simp [LockLease.held, hacq, hr])
        refine .inl ⟨hnot.2 fun h => absurd h hr, fun p hp => ?_, ho'⟩
        rw [hended] at hp
        rcases List.mem_append.1 hp with hp | hp
        · exact he p hp
        · rw [List.mem_singleton.1 hp]
    · cases hst

/-- What was ended stays so. -/
theorem ended_step {a : Action} (hst : step s a = some s') : s.ended ⊆ s'.ended := by
  cases a with
  | acquire c name =>
    obtain ⟨leases, -, rfl⟩ := Option.map_eq_some_iff.1 hst
    rw [ended_settle]
    exact List.Subset.refl _
  | resume c =>
    obtain ⟨leases, -, rfl⟩ := Option.map_eq_some_iff.1 hst
    rw [ended_settle]
    exact List.Subset.refl _
  | release c =>
    simp only [step] at hst
    split at hst
    · split_ifs at hst
      obtain rfl := Option.some.inj hst
      exact List.subset_append_left ..
    · cases hst

/-- In a run the releases end their own locks only, if and only if no lease is released again while
its name is locked. -/
theorem ends_own_iff {l : List Action} (h : machine.run {} l = some s) :
    (∀ p ∈ s.ended, p.1 = p.2) ↔ machine.Along NotAgain {} l := by
  have hmono : ∀ s a s', machine.step s a = some s' → EndsOwn s' → EndsOwn s :=
    fun s a s' hst he p hp => he p (ended_step hst hp)
  refine Iff.trans (Machine.run_iff (C := fun _ _ => True) (I := fun s => EndsOwn s → Owned s)
    (P := EndsOwn) (fun s a s' hi _ hst he' => ?_)
    (fun s a s' hi _ hst => ⟨fun he' => ?_, fun ⟨he, hn⟩ => ?_⟩) (fun _ => owned_init)
    (.of_forall fun _ _ _ => trivial) h) (and_iff_right (by simp [EndsOwn]))
  · have he := hmono s a s' hst he'
    rcases (hi he).step he hst with ⟨-, -, ho⟩ | ⟨-, hno⟩
    · exact ho
    · exact absurd he' hno
  · have he := hmono s a s' hst he'
    rcases (hi he).step he hst with ⟨hn, -⟩ | ⟨-, hno⟩
    · exact ⟨he, hn⟩
    · exact absurd he' hno
  · rcases (hi he).step he hst with ⟨-, he', -⟩ | ⟨hno, -⟩
    · exact he'
    · exact absurd hn hno

section Runs

instance (s : Sys) : ∀ a, Decidable (NotAgain s a)
  | .release c => inferInstanceAs (Decidable (∀ lease ∈ s.leases.leases c,
      lease.released → ¬ s.leases.lock.holds lease.name))
  | .acquire _ _ | .resume _ => inferInstanceAs (Decidable True)

/-- A lease is released again before anyone has the name. -/
theorem ends_own_twice : ∃ s, machine.run {} [.acquire 0 "a", .acquire 1 "a", .release 0,
      .release 0, .resume 1, .release 1] = some s
    ∧ s.ended = [(0, 0), (1, 1)] ∧ ∀ p ∈ s.ended, p.1 = p.2 := by
  have hrun : machine.run {} [.acquire 0 "a", .acquire 1 "a", .release 0, .release 0, .resume 1,
    .release 1] = some _ := rfl
  exact ⟨_, hrun, rfl, (ends_own_iff hrun).2 (by decide)⟩

/-- A lease is released, another is granted the name, and a `using` block disposes of the first. -/
theorem not_ends_own : ¬ ∀ l s, machine.run {} l = some s → ∀ p ∈ s.ended, p.1 = p.2 := by
  intro hall
  have hown := hall [.acquire 0 "a", .acquire 1 "a", .release 0, .resume 1, .release 0] _ rfl (0, 1)
    (by decide)
  exact absurd hown (by decide)

end Runs

end LockReleases

end NodeCqrs
