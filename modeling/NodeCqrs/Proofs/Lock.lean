import NodeCqrs.Lib.Entries
import NodeCqrs.Utils.Lock

/-!
# Locks exclude

`acquire` is granted a name no one holds and holds it from then on (`acquire_spec`,
`resume_spec`); a release ends that lock and no other (`release_holds`).
-/

namespace NodeCqrs.Lock

/-- The lock of the name is held. -/
def holds (l : Lock) (name : String) : Prop :=
  if name = "" then l.globalLock ≠ none else name ∈ l.namedLocks.map (·.1)

/-- What a step of an acquiring does: if it is granted, the name was free and is held now; the
other names are held as before. -/
structure Grants (l : Lock) (name : String) (l' : Lock) (awaits : Acquiring) : Prop where
  free : awaits = .acquired → ¬ l.holds name
  held : awaits = .acquired → l'.holds name
  same : awaits ≠ .acquired → (l'.holds name ↔ l.holds name)
  others : ∀ n, n ≠ name → (l'.holds n ↔ l.holds n)

theorem take_holds (l : Lock) (name n : String) :
    (l.take name).holds n ↔ n = name ∨ l.holds n := by
  by_cases hname : name = ""
  · by_cases hn : n = "" <;> simp [take, holds, hname, hn]
  · by_cases hn : n = ""
    · simp [take, holds, hname, hn, Ne.symm hname]
    · by_cases he : n = name <;> simp [take, holds, hname, hn, he]

theorem not_holds_of_getAnyBlockingLock {l : Lock} {name : String}
    (h : l.getAnyBlockingLock name = none) : ¬ l.holds name := by
  rcases hg : l.globalLock with _ | d
  · by_cases hname : name = ""
    · simp [holds, hname, hg]
    · have hl : l.namedLocks.lookup name = none := by
        simpa [getAnyBlockingLock, hg, hname] using h
      rw [List.lookup_eq_none_iff] at hl
      simp only [holds, if_neg hname, List.mem_map, not_exists, not_and]
      intro p hp he
      simpa [he] using hl p hp
  · simp [getAnyBlockingLock, hg] at h

theorem acquireBlocked_spec {l l' : Lock} {name : String} {awaits : Acquiring}
    (h : l.acquireBlocked name = (l', awaits)) : l.Grants name l' awaits := by
  simp only [acquireBlocked] at h
  split at h
  · obtain ⟨rfl, rfl⟩ := Prod.mk.inj h
    exact ⟨by simp, by simp, fun _ => Iff.rfl, fun _ _ => Iff.rfl⟩
  · rename_i hfree
    obtain ⟨rfl, rfl⟩ := Prod.mk.inj h
    exact ⟨fun _ => not_holds_of_getAnyBlockingLock hfree,
      fun _ => (take_holds ..).2 (.inl rfl), by simp, fun n hn => by simp [take_holds, hn]⟩

theorem acquire_spec {l l' : Lock} {name : String} {awaits : Acquiring}
    (h : l.acquire name = (l', awaits)) : l.Grants name l' awaits := by
  simp only [acquire] at h
  split at h
  · obtain ⟨rfl, rfl⟩ := Prod.mk.inj h
    exact ⟨by simp, by simp, fun _ => Iff.rfl, fun _ _ => Iff.rfl⟩
  · split_ifs at h
    · -- the lock that says a global one is being acquired blocks no name
      obtain ⟨h1, h2, h3, h4⟩ := acquireBlocked_spec h
      exact ⟨h1, h2, h3, h4⟩
    · exact acquireBlocked_spec h

theorem resume_spec {l l' : Lock} {name : String} {a awaits : Acquiring}
    (h : l.resume name a = some (l', awaits)) : l.Grants name l' awaits := by
  cases a with
  | acquired => simp [resume] at h
  | globalLockAcquiringLock d =>
    simp only [resume] at h
    split_ifs at h
    exact acquire_spec (Option.some.inj h)
  | blockingLock d =>
    simp only [resume] at h
    split_ifs at h
    exact acquireBlocked_spec (Option.some.inj h)

theorem resume_ne_acquired {l : Lock} {name : String} {a : Acquiring} {r : Lock × Acquiring}
    (h : l.resume name a = some r) : a ≠ .acquired := by
  rintro rfl
  simp [resume] at h

theorem release_holds (l : Lock) (name n : String) :
    (l.release name).holds n ↔ n ≠ name ∧ l.holds n := by
  by_cases hname : name = ""
  · by_cases hn : n = "" <;> simp [release, holds, hname, hn]
  · by_cases hn : n = ""
    · simp [release, holds, hname, hn, Ne.symm hname]
    · by_cases he : n = name <;> simp [release, holds, hname, hn, he]

/-! ## Named locks only -/

theorem lookup_take (l : Lock) {name : String} (hname : name ≠ "") (n : String) :
    (l.take name).namedLocks.lookup n =
      if n = name then some l.nextDeferred else l.namedLocks.lookup n := by
  have hl : (l.take name).namedLocks =
      l.namedLocks.filter (·.1 ≠ name) ++ [(name, l.nextDeferred)] := by
    rw [take, if_neg hname]
  have hnone : (l.namedLocks.filter (·.1 ≠ name)).lookup name = none := by
    rw [Entries.lookup_filter_ne, if_pos rfl]
  rw [hl, Entries.lookup_concat hnone, Entries.lookup_filter_ne]
  split_ifs <;> rfl

theorem lookup_release (l : Lock) {name : String} (hname : name ≠ "") (n : String) :
    (l.release name).namedLocks.lookup n = if n = name then none else l.namedLocks.lookup n := by
  simp only [release, if_neg hname, Entries.lookup_filter_ne]

theorem mem_resolved_release (l : Lock) {name : String} (hname : name ≠ "") (d : ℕ) :
    d ∈ (l.release name).resolved ↔ l.namedLocks.lookup name = some d ∨ d ∈ l.resolved := by
  simp [release, hname]

/-- There is no global lock, and each name's deferred is its own and is not resolved. -/
structure Named (l : Lock) : Prop where
  globalLock : l.globalLock = none
  globalLockAcquiringLock : l.globalLockAcquiringLock = none
  resolved : ∀ d ∈ l.resolved, d < l.nextDeferred
  pending : ∀ name d, l.namedLocks.lookup name = some d → d < l.nextDeferred ∧ d ∉ l.resolved
  distinct : ∀ name name' d, l.namedLocks.lookup name = some d →
    l.namedLocks.lookup name' = some d → name = name'

namespace Named

variable {l : Lock} {name : String}

theorem empty : Named {} := by
  constructor <;> simp

theorem acquireBlocked (h : l.Named) (hname : name ≠ "") :
    l.acquireBlocked name = match l.namedLocks.lookup name with
      | some d => (l, .blockingLock d)
      | none => (l.take name, .acquired) := by
  have hblock : l.getAnyBlockingLock name = l.namedLocks.lookup name := by
    simp [getAnyBlockingLock, h.globalLock, hname]
  unfold Lock.acquireBlocked
  cases hl : l.namedLocks.lookup name with
  | none => simp [hblock, hl]
  | some d => simp [hblock, hl]

theorem acquire (h : l.Named) (hname : name ≠ "") : l.acquire name = l.acquireBlocked name := by
  simp [Lock.acquire, h.globalLockAcquiringLock, hname]

theorem take (h : l.Named) (hname : name ≠ "") : (l.take name).Named := by
  have hnext : (l.take name).nextDeferred = l.nextDeferred + 1 := by simp [Lock.take, hname]
  have hresolved : (l.take name).resolved = l.resolved := by simp [Lock.take, hname]
  refine ⟨by simp [Lock.take, hname, h.globalLock],
    by simp [Lock.take, hname, h.globalLockAcquiringLock], fun d hd => ?_, fun n d hd => ?_,
    fun n n' d hd hd' => ?_⟩
  · rw [hnext]
    exact Nat.lt_succ_of_lt (h.resolved d (hresolved ▸ hd))
  · rw [hnext, hresolved]
    rw [lookup_take l hname] at hd
    split_ifs at hd
    · obtain rfl := Option.some.inj hd
      exact ⟨Nat.lt_succ_self _, fun hr => Nat.lt_irrefl _ (h.resolved _ hr)⟩
    · exact ⟨Nat.lt_succ_of_lt (h.pending n d hd).1, (h.pending n d hd).2⟩
  · rw [lookup_take l hname] at hd hd'
    split_ifs at hd hd' with hn hn' hn'
    · rw [hn, hn']
    · obtain rfl := Option.some.inj hd
      exact absurd (h.pending n' _ hd').1 (Nat.lt_irrefl _)
    · obtain rfl := Option.some.inj hd'
      exact absurd (h.pending n _ hd).1 (Nat.lt_irrefl _)
    · exact h.distinct n n' d hd hd'

theorem release (h : l.Named) (hname : name ≠ "") : (l.release name).Named := by
  have hnext : (l.release name).nextDeferred = l.nextDeferred := by simp [Lock.release, hname]
  refine ⟨by simp [Lock.release, hname, h.globalLock],
    by simp [Lock.release, hname, h.globalLockAcquiringLock], fun d hd => ?_, fun n d hd => ?_,
    fun n n' d hd hd' => ?_⟩
  · rw [hnext]
    rcases (mem_resolved_release l hname d).1 hd with hd | hd
    · exact (h.pending name d hd).1
    · exact h.resolved d hd
  · rw [lookup_release l hname] at hd
    split_ifs at hd with hn
    refine ⟨hnext ▸ (h.pending n d hd).1, fun hr => ?_⟩
    rcases (mem_resolved_release l hname d).1 hr with hr | hr
    · exact hn (h.distinct n name d hd hr)
    · exact (h.pending n d hd).2 hr
  · rw [lookup_release l hname] at hd hd'
    split_ifs at hd hd'
    exact h.distinct n n' d hd hd'

end Named

theorem holds_iff_lookup {l : Lock} {name : String} (hname : name ≠ "") :
    l.holds name ↔ l.namedLocks.lookup name ≠ none := by
  simp only [holds, if_neg hname, ne_eq, List.lookup_eq_none_iff]
  simp

end NodeCqrs.Lock
