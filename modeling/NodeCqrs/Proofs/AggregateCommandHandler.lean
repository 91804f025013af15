import NodeCqrs.AggregateCommandHandler
import NodeCqrs.Proofs.Aggregate
import NodeCqrs.Proofs.Lock
import NodeCqrs.Proofs.MapAssertable

/-!
# Calls, locks and cache entries

What holds of the handlers in any run (`reach_shape`). A call with a lease excludes the others of
its lock's name, a cache entry is counted once for each call that uses it, and from the moment a
call gets an instance until it resets the entry or ends, that instance is the entry's. So two calls
never have a hold of one instance (`Shape.ref_ne`).
-/

namespace NodeCqrs

variable {I V σ : Type}

namespace Phase

/-- The instance a call has a hold of. -/
def ref : Phase I V σ → Option (Ref I)
  | .acquiring _ => none
  | .aggregate ref => ref
  | .handler attempt _ | .dispatch attempt _ _ _ => some attempt.ref

/-- The call has been granted its lock. -/
def leased : Phase I V σ → Bool
  | .acquiring awaits => awaits = .acquired
  | _ => true

/-- The call has got the cache's instance and not reset the entry since. -/
def atEntry : Phase I V σ → Bool
  | .acquiring _ => false
  | .dispatch _ _ ignoreConcurrencyError _ => !ignoreConcurrencyError
  | _ => true

theorem leased_of_ref {p : Phase I V σ} {r : Ref I} (h : p.ref = some r) : p.leased := by
  cases p <;> simp_all [ref, leased]

theorem leased_of_atEntry {p : Phase I V σ} (h : p.atEntry) : p.leased := by
  cases p <;> simp_all [atEntry, leased]

end Phase

namespace CommandHandlers

section setters

variable (s : Sys I V σ) (c h h' : ℕ) (call : Call I V σ) (w : World I V σ)
  (cache : MapAssertable I (Ref I) I) (lock : Lock) (k : Commit I V σ)

namespace Sys

@[simp] theorem setWorld_world : (s.setWorld w).world = w := rfl
@[simp] theorem setWorld_calls : (s.setWorld w).calls = s.calls := rfl
@[simp] theorem setWorld_cache : (s.setWorld w).cache h = s.cache h := rfl
@[simp] theorem setWorld_lock : (s.setWorld w).lock h = s.lock h := rfl
@[simp] theorem setCache_world : (s.setCache h cache).world = s.world := rfl
@[simp] theorem setCache_calls : (s.setCache h cache).calls = s.calls := rfl
@[simp] theorem setLock_world : (s.setLock h lock).world = s.world := rfl
@[simp] theorem setLock_calls : (s.setLock h lock).calls = s.calls := rfl

@[simp] theorem setCache_cache :
    (s.setCache h cache).cache h' = if h' = h then cache else s.cache h' := by
  by_cases hh : h' = h <;> simp [setCache, Sys.cache, hh]

@[simp] theorem setCache_lock : (s.setCache h cache).lock h' = s.lock h' := by
  by_cases hh : h' = h <;> simp [setCache, Sys.lock, hh]

@[simp] theorem setLock_cache : (s.setLock h lock).cache h' = s.cache h' := by
  by_cases hh : h' = h <;> simp [setLock, Sys.cache, hh]

@[simp] theorem setLock_lock :
    (s.setLock h lock).lock h' = if h' = h then lock else s.lock h' := by
  by_cases hh : h' = h <;> simp [setLock, Sys.lock, hh]

@[simp] theorem setCall_world : (s.setCall c call).world = s.world := rfl
@[simp] theorem setCall_cache : (s.setCall c call).cache h = s.cache h := rfl
@[simp] theorem setCall_lock : (s.setCall c call).lock h = s.lock h := rfl
@[simp] theorem setCall_calls :
    (s.setCall c call).calls = Function.update s.calls c (some call) := rfl

@[simp] theorem setCall_commits : (s.setCall c call).commits = s.commits := rfl

theorem setCall_calls_self : (s.setCall c call).calls c = some call := by simp

@[simp] theorem addCommit_world : (s.addCommit k).world = s.world := rfl
@[simp] theorem addCommit_calls : (s.addCommit k).calls = s.calls := rfl
@[simp] theorem addCommit_cache : (s.addCommit k).cache h = s.cache h := rfl
@[simp] theorem addCommit_commits : (s.addCommit k).commits = s.commits ++ [k] := rfl

@[simp] theorem clearCall_world : (s.clearCall c).world = s.world := rfl
@[simp] theorem clearCall_cache : (s.clearCall c).cache h = s.cache h := rfl
@[simp] theorem clearCall_lock : (s.clearCall c).lock h = s.lock h := rfl
@[simp] theorem clearCall_calls : (s.clearCall c).calls = Function.update s.calls c none := rfl

end Sys

end setters

variable [DecidableEq I] [Truthy I]

omit [DecidableEq I] in
/-- Whose the instances of a call are. -/
def owner (c : ℕ) (call : Call I V σ) : Owner I :=
  (aggregateId call).elim (.call c) (.cache call.handler)

omit [DecidableEq I] in
theorem owner_of_none {c : ℕ} {call : Call I V σ} (h : aggregateId call = none) :
    owner c call = .call c := by
  simp [owner, h]

omit [DecidableEq I] in
theorem owner_of_some {c : ℕ} {call : Call I V σ} {id : I} (h : aggregateId call = some id) :
    owner c call = .cache call.handler id := by
  simp [owner, h]

omit [DecidableEq I] in
/-- The call is under way and has a lock and a cache entry of the aggregate. -/
def Uses (s : Sys I V σ) (h : ℕ) (id : I) (c : ℕ) : Prop :=
  ∃ call, s.calls c = some call ∧ call.handler = h ∧ aggregateId call = some id

omit [DecidableEq I] in
@[simp] theorem uses_setWorld (s : Sys I V σ) (w : World I V σ) :
    Uses (s.setWorld w) = Uses s := rfl

omit [DecidableEq I] in
@[simp] theorem uses_setCache (s : Sys I V σ) (h : ℕ) (m : MapAssertable I (Ref I) I) :
    Uses (s.setCache h m) = Uses s := rfl

omit [DecidableEq I] in
/-- What a handler's cache keeps for an aggregate. -/
structure Entry (s : Sys I V σ) (h : ℕ) (id : I) : Prop where
  usage : ∃ l : List ℕ, l.Nodup ∧ (∀ c, c ∈ l ↔ Uses s h id c)
    ∧ (s.cache h).usageCounter id = l.length
  present : 0 < (s.cache h).usageCounter id → (s.cache h).has id
  absent : (s.cache h).usageCounter id = 0 → (s.cache h).has id = false
  factory : ∀ f, (s.cache h).factories id = some f → f = id ∧ (s.cache h).entries id = none
  value : ∀ r, (s.cache h).entries id = some r →
    r.owner = .cache h id ∧ r.serial < s.world.nextRef
  inUse : ∀ c call, s.calls c = some call → call.handler = h → aggregateId call = some id →
    call.phase.atEntry → call.phase.ref ≠ none ∧ (s.cache h).entries id = call.phase.ref

variable (H : CommandHandlers I V σ)

omit [DecidableEq I] in
/-- What a call under way has. -/
structure Holds (s : Sys I V σ) (c : ℕ) (call : Call I V σ) : Prop where
  ref : ∀ r, call.phase.ref = some r → r.owner = owner c call ∧ r.serial < s.world.nextRef
  lock : ∀ id, aggregateId call = some id → call.phase.leased →
    (s.lock call.handler).holds (H.lockName id)

omit [DecidableEq I] in
/-- The calls, the locks and the caches fit together. -/
structure Shape (s : Sys I V σ) : Prop where
  entry : ∀ h id, Entry s h id
  calls : ∀ c call, s.calls c = some call → Holds H s c call
  mutex : ∀ c c' call call' id id', s.calls c = some call → s.calls c' = some call' →
    call.handler = call'.handler → aggregateId call = some id → aggregateId call' = some id' →
    H.lockName id = H.lockName id' → call.phase.leased → call'.phase.leased → c = c'
  fresh : ∀ r, s.world.instances r ≠ none → r.serial < s.world.nextRef

variable {H} {s : Sys I V σ}

omit [DecidableEq I] in
/-- An entry stays if its key's part of the cache, the calls that use it and those at it do. -/
theorem Entry.of_uses {s' : Sys I V σ} {h : ℕ} {id : I} (hE : Entry s h id)
    (he : (s'.cache h).entries id = (s.cache h).entries id)
    (hu : (s'.cache h).usageCounter id = (s.cache h).usageCounter id)
    (hf : (s'.cache h).factories id = (s.cache h).factories id)
    (hn : s.world.nextRef ≤ s'.world.nextRef) (huses : ∀ c, Uses s' h id c ↔ Uses s h id c)
    (hat : ∀ c call, s'.calls c = some call → call.phase.atEntry → s.calls c = some call) :
    Entry s' h id where
  usage := by simpa only [huses, hu] using hE.usage
  present := by simpa only [MapAssertable.has, hu, he, hf] using hE.present
  absent := by simpa only [MapAssertable.has, hu, he, hf] using hE.absent
  factory := by simpa only [he, hf] using hE.factory
  value r hr := ⟨(hE.value r (he ▸ hr)).1, Nat.lt_of_lt_of_le (hE.value r (he ▸ hr)).2 hn⟩
  inUse c call hc hh hid ha := he.symm ▸ hE.inUse c call (hat c call hc ha) hh hid ha

omit [DecidableEq I] in
theorem Entry.congr {s' : Sys I V σ} {h : ℕ} {id : I} (hE : Entry s h id)
    (he : (s'.cache h).entries id = (s.cache h).entries id)
    (hu : (s'.cache h).usageCounter id = (s.cache h).usageCounter id)
    (hf : (s'.cache h).factories id = (s.cache h).factories id)
    (hc : s'.calls = s.calls) (hn : s.world.nextRef ≤ s'.world.nextRef) : Entry s' h id :=
  hE.of_uses he hu hf hn (fun c => by simp only [Uses, hc]) fun c call h _ => hc ▸ h

omit [Truthy I] in
theorem getCacheEntry_eq {h : ℕ} {id : I} (hf : (s.cache h).factories id = none) :
    getCacheEntry s h id = (s, (s.cache h).entries id) := by
  simp only [getCacheEntry, MapAssertable.get_eq hf]
  exact Prod.ext (congrArg (fun handlers => { s with handlers }) (Function.update_eq_self ..)) rfl

omit [Truthy I] in
theorem getCacheEntry_of_factory {h : ℕ} {id f : I}
    (hf : (s.cache h).factories id = some f) :
    getCacheEntry s h id =
      ((s.setWorld (s.world.restoreAggregate h f).1).setCache h ({ s.cache h with
        factories := Function.update (s.cache h).factories id none }.set id
          (s.world.restoreAggregate h f).2), some (s.world.restoreAggregate h f).2) := by
  simp only [getCacheEntry, MapAssertable.get_of_factory hf]

namespace Shape

omit [DecidableEq I] in
/-- Two calls with an instance each have different ones. -/
theorem ref_ne (hS : Shape H s) {c c' : ℕ} {call call' : Call I V σ} {r r' : Ref I}
    (hc : s.calls c = some call) (hc' : s.calls c' = some call') (hr : call.phase.ref = some r)
    (hr' : call'.phase.ref = some r') (hne : c ≠ c') : r ≠ r' := by
  rintro rfl
  have ho := ((hS.calls c call hc).ref r hr).1.symm.trans ((hS.calls c' call' hc').ref r hr').1
  rcases hid : aggregateId call with _ | id <;> rcases hid' : aggregateId call' with _ | id' <;>
    simp only [owner, hid, hid', Option.elim, Owner.call.injEq, Owner.cache.injEq,
      reduceCtorEq] at ho
  · exact hne ho
  · obtain ⟨hh, rfl⟩ := ho
    exact hne (hS.mutex c c' call call' id id hc hc' hh hid hid' rfl (Phase.leased_of_ref hr)
      (Phase.leased_of_ref hr'))

omit [DecidableEq I] in
/-- An entry with the instance of a call is the call's. -/
theorem entry_of_ref (hS : Shape H s) {c h : ℕ} {call : Call I V σ} {id : I} {r : Ref I}
    (hc : s.calls c = some call) (hr : call.phase.ref = some r)
    (he : (s.cache h).entries id = some r) : h = call.handler ∧ aggregateId call = some id := by
  have ho := ((hS.calls c call hc).ref r hr).1.symm.trans ((hS.entry h id).value r he).1
  rcases hid : aggregateId call with _ | id'
  · simp [owner_of_none hid] at ho
  · rw [owner_of_some hid, Owner.cache.injEq] at ho
    exact ⟨ho.1.symm, by rw [ho.2]⟩

omit [DecidableEq I] in
theorem setWorld (hS : Shape H s) {w : World I V σ} (hn : s.world.nextRef ≤ w.nextRef)
    (hf : ∀ r, w.instances r ≠ none → r.serial < w.nextRef) : Shape H (s.setWorld w) where
  entry h id := by
    have he := hS.entry h id
    exact ⟨he.usage, he.present, he.absent, he.factory,
      fun r hr => ⟨(he.value r hr).1, Nat.lt_of_lt_of_le (he.value r hr).2 hn⟩, he.inUse⟩
  calls c call hc := by
    have hh := hS.calls c call hc
    exact ⟨fun r hr => ⟨(hh.ref r hr).1, Nat.lt_of_lt_of_le (hh.ref r hr).2 hn⟩, hh.lock⟩
  mutex := hS.mutex
  fresh := hf

omit [DecidableEq I] in
/-- A call under the number `c` that uses the entry the one before it did, has a lease only if that
one had, and an instance only if that is its own. -/
theorem setCall (hS : Shape H s) {c : ℕ} {call' : Call I V σ}
    (hu : ∀ h id, Uses (s.setCall c call') h id c ↔ Uses s h id c)
    (hl : ∀ id, aggregateId call' = some id → call'.phase.leased → ∃ call, s.calls c = some call
      ∧ call.handler = call'.handler ∧ aggregateId call = some id ∧ call.phase.leased)
    (hr : ∀ r, call'.phase.ref = some r →
      r.owner = owner c call' ∧ r.serial < s.world.nextRef)
    (he : ∀ id, aggregateId call' = some id → call'.phase.atEntry →
      call'.phase.ref ≠ none ∧ (s.cache call'.handler).entries id = call'.phase.ref) :
    Shape H (s.setCall c call') where
  entry h id := by
    have hE := hS.entry h id
    obtain ⟨l, hnd, hm, hn⟩ := hE.usage
    refine ⟨⟨l, hnd, fun x => (hm x).trans ?_, hn⟩, hE.present,
      hE.absent, hE.factory, hE.value, fun x callx hx hxh hxid hxe => ?_⟩
    · by_cases hxc : x = c
      · exact hxc ▸ (hu h id).symm
      · simp [Uses, Sys.setCall, hxc]
    · by_cases hxc : x = c
      · obtain rfl : call' = callx := by simpa [Sys.setCall, hxc] using hx
        exact hxh ▸ he id hxid hxe
      · exact hE.inUse x callx (by simpa [Sys.setCall, hxc] using hx) hxh hxid hxe
  calls x callx hx := by
    by_cases hxc : x = c
    · subst hxc
      obtain rfl : call' = callx := by simpa [Sys.setCall] using hx
      refine ⟨hr, fun id hid h => ?_⟩
      obtain ⟨call, hc, hh, hid', hl'⟩ := hl id hid h
      exact hh ▸ (hS.calls x call hc).lock id hid' hl'
    · exact ⟨(hS.calls x callx (by simpa [Sys.setCall, hxc] using hx)).ref,
        (hS.calls x callx (by simpa [Sys.setCall, hxc] using hx)).lock⟩
  mutex x y callx cally id id' hx hy hxy hxid hyid hn hlx hly := by
    have key : ∀ z callz id, (s.setCall c call').calls z = some callz →
        aggregateId callz = some id → callz.phase.leased →
        ∃ callz', s.calls z = some callz' ∧ callz'.handler = callz.handler
          ∧ aggregateId callz' = some id ∧ callz'.phase.leased := by
      intro z callz id hz hzid hzl
      by_cases hzc : z = c
      · subst hzc
        obtain rfl : call' = callz := by simpa [Sys.setCall] using hz
        exact hl id hzid hzl
      · exact ⟨callz, by simpa [Sys.setCall, hzc] using hz, rfl, hzid, hzl⟩
    obtain ⟨cx, hx1, hx2, hx3, hx4⟩ := key x callx id hx hxid hlx
    obtain ⟨cy, hy1, hy2, hy3, hy4⟩ := key y cally id' hy hyid hly
    exact hS.mutex x y cx cy id id' hx1 hy1 (by rw [hx2, hy2, hxy]) hx3 hy3 hn hx4 hy4
  fresh := hS.fresh

omit [DecidableEq I] in
/-- A call goes on with the lease and the instance it has, or without. -/
theorem goesOn (hS : Shape H s) {c : ℕ} {call call' : Call I V σ} (hc : s.calls c = some call)
    (hh : call'.handler = call.handler) (hcmd : call'.cmd = call.cmd)
    (hl : call'.phase.leased → call.phase.leased)
    (hr : ∀ r, call'.phase.ref = some r → call.phase.ref = some r)
    (he : call'.phase.atEntry → call.phase.atEntry ∧ call'.phase.ref = call.phase.ref) :
    Shape H (s.setCall c call') := by
  have hid : aggregateId call' = aggregateId call := by simp [aggregateId, hcmd]
  refine hS.setCall (fun h id => by simp [Uses, Sys.setCall, hc, hh, hid])
    (fun id h1 h2 => ⟨call, hc, hh.symm, hid ▸ h1, hl h2⟩) (fun r h => ?_) (fun id h1 h2 => ?_)
  · rw [owner, hid, hh]
    exact (hS.calls c call hc).ref r (hr r h)
  · obtain ⟨h3, h4⟩ := he h2
    rw [hh, h4]
    exact (hS.entry call.handler id).inUse c call hc rfl (hid ▸ h1) h3

omit [DecidableEq I] in
/-- A call with a lease goes on with its instance. -/
theorem goOn (hS : Shape H s) {c : ℕ} {call : Call I V σ} {phase : Phase I V σ}
    (hc : s.calls c = some call) (hl : call.phase.leased) (hr : phase.ref = call.phase.ref)
    (he : phase.atEntry → call.phase.atEntry) : Shape H (s.goOn c call phase) :=
  hS.goesOn hc rfl rfl (fun _ => hl) (fun _ h => hr ▸ h) fun h => ⟨he h, hr⟩

omit [DecidableEq I] in
theorem setCache (hS : Shape H s) {h : ℕ} {m : MapAssertable I (Ref I) I}
    (he : ∀ id, Entry (s.setCache h m) h id) : Shape H (s.setCache h m) where
  entry h' id := by
    by_cases hh : h' = h
    · exact hh ▸ he id
    · refine (hS.entry h' id).congr ?_ ?_ ?_ rfl (Nat.le_refl _) <;> simp [hh]
  calls c call hc := by
    have hH := hS.calls c call hc
    exact ⟨hH.ref, by simpa using hH.lock⟩
  mutex := hS.mutex
  fresh := hS.fresh

/-- A new instance is no one's before. -/
theorem make (hS : Shape H s) (o : Owner I) (i : Instance I V σ) :
    Shape H (s.setWorld (s.world.make o i).1) := by
  refine hS.setWorld (Nat.le_succ _) fun r hr => ?_
  by_cases he : r = ⟨o, s.world.nextRef⟩
  · exact he ▸ Nat.lt_succ_self _
  · exact Nat.lt_succ_of_lt (hS.fresh r (by simpa [World.make, World.setInstance, he] using hr))

/-- `#aggregatesCache.get` -/
theorem getCacheEntry (hS : Shape H s) (h : ℕ) (id : I) : Shape H (getCacheEntry s h id).1 := by
  rcases hf : (s.cache h).factories id with _ | f
  · rw [getCacheEntry_eq hf]
    exact hS
  · obtain ⟨rfl, hnone⟩ := (hS.entry h id).factory f hf
    have hS' : Shape H (s.setWorld (s.world.restoreAggregate h f).1) := hS.make _ _
    rw [getCacheEntry_of_factory hf]
    refine hS'.setCache fun id' => ?_
    have hE := hS'.entry h id'
    by_cases hid : id' = f
    · subst hid
      have hpos := mt hE.absent (by simp [MapAssertable.has, hf])
      simp only [Sys.setWorld_cache] at hE hpos
      refine ⟨by simpa using hE.usage, fun _ => by simp [MapAssertable.has],
        fun h0 => absurd (by simpa using h0) hpos, fun f' h' => by simp at h',
        fun r hr => ?_, fun c call hc hh hid he => ?_⟩
      · obtain rfl : _ = r := by simpa using hr
        exact ⟨rfl, Nat.lt_succ_self _⟩
      · obtain ⟨h1, h2⟩ := hE.inUse c call hc hh hid he
        exact absurd (h2.symm.trans hnone) h1
    · refine hE.congr ?_ ?_ ?_ rfl (Nat.le_refl _) <;> simp [hid]

omit [DecidableEq I] in
/-- An entry a call uses is there. -/
theorem has (hS : Shape H s) {c : ℕ} {call : Call I V σ} {id : I} (hc : s.calls c = some call)
    (hid : aggregateId call = some id) : (s.cache call.handler).has id := by
  have hE := hS.entry call.handler id
  obtain ⟨l, -, hm, hn⟩ := hE.usage
  exact hE.present (hn ▸ List.length_pos_of_mem ((hm c).2 ⟨call, hc, rfl, hid⟩))

/-- `#resetCacheEntry`, by a call with a lease that has let go of its instance. -/
theorem resetCacheEntry (hS : Shape H s) {c : ℕ} {call : Call I V σ}
    (hc : s.calls c = some call) (hl : call.phase.leased) (he : call.phase.atEntry = false) :
    Shape H (resetCacheEntry s call) := by
  rcases hid : aggregateId call with _ | id
  · simpa [CommandHandlers.resetCacheEntry, hid] using hS
  simp only [CommandHandlers.resetCacheEntry, hid]
  refine hS.setCache fun id' => ?_
  have hE := hS.entry call.handler id'
  by_cases hid' : id' = id
  · subst hid'
    have hpos := mt hE.absent (by simp [hS.has hc hid])
    refine ⟨by simpa using hE.usage, fun _ => by simp [MapAssertable.has],
      fun h0 => absurd (by simpa using h0) hpos, fun f hf => ?_, fun r hr => by simp at hr,
      fun c' call' hc' hh hid' he' => ?_⟩
    · exact ⟨by simpa using hf.symm, by simp⟩
    · -- only this call has a lease, and it is not at the entry
      obtain rfl := hS.mutex c c' call call' id' id' hc hc' hh.symm hid hid' rfl hl
        (Phase.leased_of_atEntry he')
      obtain rfl : call = call' := Option.some.inj (hc.symm.trans hc')
      simp [he] at he'
  · refine hE.congr ?_ ?_ ?_ rfl (Nat.le_refl _) <;> simp [hid']

/-- A new call has its entry counted. -/
theorem begin (hS : Shape H s) {c : ℕ} {call : Call I V σ} {id : I} (hc : s.calls c = none)
    (hid : aggregateId call = some id) (hl : call.phase.leased = false) :
    Shape H ((s.setCache call.handler ((s.cache call.handler).use id id)).setCall c call) := by
  have hold : ∀ {x callx}, Function.update s.calls c (some call) x = some callx →
      callx.phase.leased → s.calls x = some callx := by
    intro x callx hx hlx
    by_cases hxc : x = c
    · obtain rfl : call = callx := by simpa [hxc] using hx
      simp [hl] at hlx
    · simpa [hxc] using hx
  have huses : ∀ h' id' x, Uses ((s.setCache call.handler
      ((s.cache call.handler).use id id)).setCall c call) h' id' x ↔
      x = c ∧ call.handler = h' ∧ id = id' ∨ Uses s h' id' x := by
    intro h' id' x
    by_cases hxc : x = c
    · simp [Uses, hxc, hc, hid]
    · simp [Uses, hxc]
  refine ⟨fun h' id' => ?_, fun x callx hx => ?_,
    fun x y callx cally i j hx hy hh hi hj hn hlx hly =>
      hS.mutex x y callx cally i j (hold hx hlx) (hold hy hly) hh hi hj hn hlx hly, hS.fresh⟩
  · have hE := hS.entry h' id'
    have hin := fun x callx hx hh hi (he : callx.phase.atEntry) =>
      hE.inUse x callx (hold hx (Phase.leased_of_atEntry he)) hh hi he
    by_cases hk : call.handler = h' ∧ id = id'
    · obtain ⟨rfl, rfl⟩ := hk
      obtain ⟨l, hnd, hm, hlen⟩ := hE.usage
      have hcl : c ∉ l := fun h => by simpa [Uses, hc] using (hm c).1 h
      have hhas := (s.cache call.handler).use_has id id
      refine ⟨⟨c :: l, List.nodup_cons.2 ⟨hcl, hnd⟩, fun x => ?_, by simp [hlen]⟩,
        fun _ => by simpa using hhas, fun h0 => by simp at h0, fun f hf => ?_,
        fun r hr => hE.value r (by simpa [MapAssertable.use_entries] using hr),
        by simpa [MapAssertable.use_entries] using hin⟩
      · rw [huses, List.mem_cons, hm]
        simp
      · simp only [Sys.setCall_cache, Sys.setCache_cache, if_true, MapAssertable.use_factories,
          MapAssertable.use_entries] at hf ⊢
        split_ifs at hf with h
        · exact hE.factory f hf
        · simp only [MapAssertable.has, Bool.or_eq_true, not_or, Option.not_isSome_iff_eq_none] at h
          exact ⟨(Option.some.inj hf).symm, h.1⟩
    · have hne : h' = call.handler → id' ≠ id := fun h h' => hk ⟨h.symm, h'.symm⟩
      refine hE.of_uses ?_ ?_ ?_ (Nat.le_refl _) (fun x => ?_) fun x callx hx ha =>
        hold hx (Phase.leased_of_atEntry ha)
      · by_cases hh : h' = call.handler <;> simp [hh, MapAssertable.use_entries]
      · by_cases hh : h' = call.handler <;> simp [hh, hne]
      · by_cases hh : h' = call.handler
        · simp [hh, MapAssertable.use_factories_ne _ _ _ (hne hh)]
        · simp [hh]
      · rw [huses]
        exact ⟨fun h => h.resolve_left fun h => hk h.2, .inr⟩
  · by_cases hxc : x = c
    · obtain rfl : call = callx := by simpa [hxc] using hx
      refine ⟨fun r hr => ?_, fun i _ h => by simp [hl] at h⟩
      simp [Phase.leased_of_ref hr] at hl
    · have hH := hS.calls x callx (by simpa [hxc] using hx)
      exact ⟨hH.ref, by simpa using hH.lock⟩

omit [DecidableEq I] in
/-- A call that awaits its lock asks for it again. -/
theorem setLock (hS : Shape H s) {c : ℕ} {call : Call I V σ} {id : I} {lock : Lock}
    {awaits' : Acquiring} (hc : s.calls c = some call) (hid : aggregateId call = some id)
    (hg : (s.lock call.handler).Grants (H.lockName id) lock awaits') :
    Shape H ((s.setLock call.handler lock).goOn c call (.acquiring awaits')) := by
  have hold : ∀ {x callx}, Function.update s.calls c
      (some { call with phase := .acquiring awaits' }) x = some callx → x ≠ c →
      s.calls x = some callx := fun hx hxc => by simpa [hxc] using hx
  -- when the lock is granted, no other call has a lease of its name
  have hexcl : ∀ {x callx i}, s.calls x = some callx → callx.handler = call.handler →
      aggregateId callx = some i → H.lockName i = H.lockName id → callx.phase.leased →
      awaits' ≠ .acquired := fun hx hh hi hn hlx h =>
    hg.free h (hn ▸ hh ▸ (hS.calls _ _ hx).lock _ hi hlx)
  refine ⟨fun h' id' => ?_, fun x callx hx => ?_,
    fun x y callx cally i j hx hy hh hi hj hn hlx hly => ?_, hS.fresh⟩
  · refine (hS.entry h' id').of_uses (by simp [Sys.goOn]) (by simp [Sys.goOn])
      (by simp [Sys.goOn]) (Nat.le_refl _) (fun x => ?_) fun x callx hx hax => ?_
    · by_cases hxc : x = c
      · simp [Uses, Sys.goOn, hxc, hc, aggregateId]
      · simp [Uses, Sys.goOn, hxc]
    · refine hold hx fun hxc => ?_
      obtain rfl : _ = callx := by simpa [Sys.goOn, hxc] using hx
      simp [Phase.atEntry] at hax
  · by_cases hxc : x = c
    · obtain rfl : _ = callx := by simpa [Sys.goOn, hxc] using hx
      refine ⟨fun r hr => by simp [Phase.ref] at hr, fun i hi hl => ?_⟩
      obtain rfl : id = i := Option.some.inj (hid.symm.trans hi)
      simpa [Sys.goOn] using hg.held (by simpa [Phase.leased] using hl)
    · have hx := hold hx hxc
      refine ⟨(hS.calls x callx hx).ref, fun i hi hl => ?_⟩
      have hhold := (hS.calls x callx hx).lock i hi hl
      by_cases hh : callx.handler = call.handler
      · by_cases hn : H.lockName i = H.lockName id
        · simpa [Sys.goOn, hh, hn] using
            (hg.same (hexcl hx hh hi hn hl)).2 (hh ▸ hn ▸ hhold)
        · simpa [Sys.goOn, hh] using (hg.others _ hn).2 (hh ▸ hhold)
      · simpa [Sys.goOn, hh] using hhold
  · by_cases hxc : x = c <;> by_cases hyc : y = c
    · rw [hxc, hyc]
    · obtain rfl : _ = callx := by simpa [Sys.goOn, hxc] using hx
      obtain rfl : id = i := Option.some.inj (hid.symm.trans hi)
      exact absurd (by simpa [Phase.leased] using hlx)
        (hexcl (hold hy hyc) hh.symm hj hn.symm hly)
    · obtain rfl : _ = cally := by simpa [Sys.goOn, hyc] using hy
      obtain rfl : id = j := Option.some.inj (hid.symm.trans hj)
      exact absurd (by simpa [Phase.leased] using hly) (hexcl (hold hx hxc) hh hi hn hlx)
    · exact hS.mutex x y callx cally i j (hold hx hxc) (hold hy hyc) hh hi hj hn hlx hly

omit [DecidableEq I] [Truthy I] in
theorem calls_of_clear {c x : ℕ} {callx : Call I V σ}
    (hx : Function.update s.calls c none x = some callx) : x ≠ c ∧ s.calls x = some callx := by
  by_cases hxc : x = c
  · simp [hxc] at hx
  · exact ⟨hxc, by simpa [hxc] using hx⟩

omit [DecidableEq I] in
theorem clearCall (hS : Shape H s) {c : ℕ} {call : Call I V σ} (hc : s.calls c = some call)
    (hid : aggregateId call = none) : Shape H (s.clearCall c) := by
  refine ⟨fun h' id' => (hS.entry h' id').of_uses rfl rfl rfl (Nat.le_refl _) (fun x => ?_)
    fun x callx hx _ => (calls_of_clear hx).2, fun x callx hx => ?_,
    fun x y callx cally i j hx hy => hS.mutex x y callx cally i j (calls_of_clear hx).2
      (calls_of_clear hy).2, hS.fresh⟩
  · by_cases hxc : x = c
    · simp [Uses, hxc, hc, hid]
    · simp [Uses, hxc]
  · have hH := hS.calls x callx (calls_of_clear hx).2
    exact ⟨hH.ref, hH.lock⟩

/-- The `finally` of `execute`. -/
theorem finish (hS : Shape H s) {c : ℕ} {call : Call I V σ} (hc : s.calls c = some call)
    (hl : call.phase.leased) : Shape H (H.finish s c call) := by
  rcases hid : aggregateId call with _ | id
  · simpa [CommandHandlers.finish, hid] using hS.clearCall hc hid
  simp only [CommandHandlers.finish, hid, Sys.setLock_cache]
  refine ⟨fun h' id' => ?_, fun x callx hx => ?_,
    fun x y callx cally i j hx hy => hS.mutex x y callx cally i j (calls_of_clear hx).2
      (calls_of_clear hy).2, hS.fresh⟩
  · have hE := hS.entry h' id'
    by_cases hk : h' = call.handler ∧ id' = id
    · obtain ⟨rfl, rfl⟩ := hk
      obtain ⟨l, hnd, hm, hlen⟩ := hE.usage
      have hcl : c ∈ l := (hm c).2 ⟨call, hc, rfl, hid⟩
      refine ⟨⟨l.erase c, hnd.erase c, fun x => ?_, ?_⟩, ?_, ?_, ?_, ?_,
        fun x callx hx hh hi ha => ?_⟩
      · rw [hnd.mem_erase_iff, hm]
        by_cases hxc : x = c
        · simp [Uses, hxc]
        · simp [Uses, hxc]
      · simp [MapAssertable.release_usageCounter, hlen, List.length_erase_of_mem hcl]
      · intro hpos
        have h1 : 1 < (s.cache call.handler).usageCounter id' := by
          simp [MapAssertable.release_usageCounter] at hpos
          omega
        simpa [MapAssertable.has, MapAssertable.release_entries,
          MapAssertable.release_factories, h1] using hE.present (by omega)
      · intro h0
        have h1 : ¬ 1 < (s.cache call.handler).usageCounter id' := by
          simp [MapAssertable.release_usageCounter] at h0
          omega
        simp [MapAssertable.has, MapAssertable.release_entries, MapAssertable.release_factories, h1]
      · intro f hf
        simp only [Sys.clearCall_cache, Sys.setCache_cache, if_true,
          MapAssertable.release_entries, MapAssertable.release_factories] at hf ⊢
        split_ifs at hf ⊢
        · exact hE.factory f hf
        · simp at hf
      · intro r hr
        simp only [Sys.clearCall_cache, Sys.setCache_cache, if_true,
          MapAssertable.release_entries] at hr
        split_ifs at hr
        · exact hE.value r hr
        · simp at hr
      · -- the call that ends had the lease
        obtain ⟨hne, hx⟩ := calls_of_clear hx
        exact absurd (hS.mutex x c callx call id' id' hx hc hh hi hid rfl
          (Phase.leased_of_atEntry ha) hl) hne
    · have hcell := fun hh : h' = call.handler =>
        (s.cache call.handler).release_ne id (fun hi : id' = id => hk ⟨hh, hi⟩)
      refine hE.of_uses ?_ ?_ ?_ (Nat.le_refl _) (fun x => ?_) fun x callx hx _ =>
        (calls_of_clear hx).2
      · by_cases hh : h' = call.handler
        · simpa [hh] using (hcell hh).1
        · simp [hh]
      · by_cases hh : h' = call.handler
        · simpa [hh] using (hcell hh).2.1
        · simp [hh]
      · by_cases hh : h' = call.handler
        · simpa [hh] using (hcell hh).2.2
        · simp [hh]
      · by_cases hxc : x = c
        · simp only [Uses, hxc, hc, Sys.clearCall_calls, Function.update_self, reduceCtorEq,
            false_and, exists_false, Option.some.injEq, false_iff, not_exists, not_and]
          rintro _ rfl rfl h
          exact hk ⟨rfl, Option.some.inj (h.symm.trans hid)⟩
        · simp [Uses, hxc]
  · obtain ⟨hne, hx⟩ := calls_of_clear hx
    refine ⟨(hS.calls x callx hx).ref, fun i hi hlx => ?_⟩
    have hhold := (hS.calls x callx hx).lock i hi hlx
    by_cases hh : callx.handler = call.handler
    · have hn : H.lockName i ≠ H.lockName id := fun hn =>
        hne (hS.mutex x c callx call i id hx hc hh hi hid hn hlx hl)
      simpa [hh, Lock.release_holds, hn] using hh ▸ hhold
    · simpa [hh] using hhold

end Shape

section commute

variable (s : Sys I V σ) (c : ℕ) (call call' : Call I V σ) (h : ℕ) (id : I)

omit [Truthy I] in
@[simp] theorem getCacheEntry_calls : (getCacheEntry s h id).1.calls = s.calls := rfl

omit [Truthy I] in
/-- `#aggregatesCache.get` gives what the entry then holds. -/
theorem getCacheEntry_ref :
    ((getCacheEntry s h id).1.cache h).entries id = (getCacheEntry s h id).2 := by
  rcases hf : (s.cache h).factories id with _ | f
  · rw [getCacheEntry_eq hf]
  · simp [getCacheEntry_of_factory hf]

omit [Truthy I] in
theorem getCacheEntry_ne_none (hh : (s.cache h).has id) : (getCacheEntry s h id).2 ≠ none := by
  rcases hf : (s.cache h).factories id with _ | f
  · rw [getCacheEntry_eq hf]
    intro he
    simp only at he
    simp [MapAssertable.has, hf, he] at hh
  · simp [getCacheEntry_of_factory hf]

omit [Truthy I] in
theorem getCacheEntry_setCall : getCacheEntry (s.setCall c call) h id =
    ((getCacheEntry s h id).1.setCall c call, (getCacheEntry s h id).2) := rfl

omit [Truthy I] in
theorem allocateCacheEntry_eq : allocateCacheEntry s h id =
    (getCacheEntry (s.setCache h ((s.cache h).use id id)) h id).1 := by
  simp only [allocateCacheEntry, getCacheEntry, MapAssertable.assert_eq, Sys.setCache_cache,
    if_true, Sys.setCache_world]
  simp [Sys.setCache, Sys.setWorld]

omit [DecidableEq I] [Truthy I] in
@[simp] theorem Sys.setCall_setCall :
    (s.setCall c call).setCall c call' = s.setCall c call' := by
  simp [Sys.setCall]

omit [DecidableEq I] [Truthy I] in
@[simp] theorem Sys.clearCall_setCall : (s.setCall c call).clearCall c = s.clearCall c := by
  simp [Sys.setCall, Sys.clearCall]

@[simp] theorem resetCacheEntry_world : (resetCacheEntry s call).world = s.world := by
  simp only [resetCacheEntry]
  split <;> rfl

@[simp] theorem resetCacheEntry_calls : (resetCacheEntry s call).calls = s.calls := by
  simp only [resetCacheEntry]
  split <;> rfl

theorem resetCacheEntry_setCall :
    resetCacheEntry (s.setCall c call') call = (resetCacheEntry s call).setCall c call' := by
  simp only [resetCacheEntry]
  split <;> rfl

@[simp] theorem resetCacheEntry_commits : (resetCacheEntry s call).commits = s.commits := by
  simp only [resetCacheEntry]
  split <;> rfl

/-- A reset leaves the call's key no value. -/
theorem entries_of_reset {r : Ref I}
    (hr : ((resetCacheEntry s call).cache h).entries id = some r) :
    (s.cache h).entries id = some r ∧ (h = call.handler → aggregateId call ≠ some id) := by
  rcases hid : aggregateId call with _ | id'
  · simp only [resetCacheEntry, hid] at hr
    exact ⟨hr, by simp⟩
  · simp only [resetCacheEntry, hid, Sys.setCache_cache] at hr
    split_ifs at hr with hh
    · by_cases hi : id = id'
      · simp [hi] at hr
      · exact ⟨by simpa [hh, hi] using hr, fun _ h => hi (Option.some.inj h).symm⟩
    · exact ⟨hr, fun h => absurd h hh⟩

variable (H)

@[simp] theorem finish_world : (H.finish s c call).world = s.world := by
  simp only [finish]
  split <;> rfl

@[simp] theorem finish_calls :
    (H.finish s c call).calls = Function.update s.calls c none := by
  simp only [finish]
  split <;> rfl

@[simp] theorem finish_commits : (H.finish s c call).commits = s.commits := by
  simp only [finish]
  split <;> rfl

theorem entries_of_finish {r : Ref I} (hr : ((H.finish s c call).cache h).entries id = some r) :
    (s.cache h).entries id = some r := by
  simp only [finish] at hr
  split at hr
  · exact hr
  · simp only [Sys.clearCall_cache, Sys.setCache_cache, Sys.setLock_cache] at hr
    split_ifs at hr with hh
    · exact hh ▸ MapAssertable.entries_of_release _ _ hr
    · exact hr

theorem finish_setCall : H.finish (s.setCall c call') c call = H.finish s c call := by
  simp only [finish]
  split
  · exact Sys.clearCall_setCall ..
  · exact Sys.clearCall_setCall ((s.setLock _ _).setCache _ _) c call'

theorem throwFrom_setCall :
    H.throwFrom (s.setCall c call') c call = H.throwFrom s c call := by
  rw [throwFrom, resetCacheEntry_setCall, finish_setCall]
  rfl

theorem getAggregate_setCall :
    H.getAggregate (s.setCall c call') c call = H.getAggregate s c call := by
  simp only [getAggregate]
  split
  · rw [getCacheEntry_setCall]
    exact Sys.setCall_setCall ..
  · exact Sys.setCall_setCall (s.setWorld _) c call' _

theorem getAggregate_calls : ∃ ref, (H.getAggregate s c call).calls =
    Function.update s.calls c (some { call with phase := .aggregate ref }) := by
  simp only [getAggregate]
  split <;> exact ⟨_, rfl⟩

@[simp] theorem getAggregate_commits : (H.getAggregate s c call).commits = s.commits := by
  simp only [getAggregate]
  split <;> rfl

theorem execute_calls (cmd : Command I V) : ∃ call' : Call I V σ,
    ((∃ awaits, call'.phase = .acquiring awaits) ∨ ∃ ref, call'.phase = .aggregate ref)
      ∧ (H.execute s c h cmd).calls = Function.update s.calls c (some call') := by
  simp only [execute]
  split
  · obtain ⟨ref, hc⟩ := getAggregate_calls H s c { handler := h, cmd, phase := .aggregate none }
    exact ⟨_, .inr ⟨ref, rfl⟩, hc⟩
  · exact ⟨_, .inl ⟨_, rfl⟩, rfl⟩

@[simp] theorem execute_commits (cmd : Command I V) :
    (H.execute s c h cmd).commits = s.commits := by
  simp only [execute]
  split
  · exact getAggregate_commits ..
  · rfl

end commute

namespace Shape

/-- A call without a lock makes an instance of its own. -/
theorem createAggregate (hS : Shape H s) {c : ℕ} {call : Call I V σ}
    (hc : ∀ call', s.calls c = some call' → aggregateId call' = none)
    (hid : aggregateId call = none) : Shape H (H.getAggregate s c call) := by
  simp only [CommandHandlers.getAggregate, hid]
  have hS' := (hS.setWorld (w := s.world.setEventStorage s.world.storages.eventStorage.getNewId.1)
    (Nat.le_refl _) hS.fresh).make (.call c)
      (.ready (H.aggregateType.create (H.newId s.world.storages.eventStorage.getNewId.2)) [])
  have hnone : ∀ {p : Phase I V σ} {id : I}, aggregateId { call with phase := p } ≠ some id :=
    fun h => by simp [show aggregateId call = some _ from h] at hid
  refine hS'.setCall (fun h id => ⟨?_, ?_⟩) (fun id h => absurd h hnone) (fun r hr => ?_)
    fun id h => absurd h hnone
  · rintro ⟨callx, hx, -, hx'⟩
    obtain rfl : _ = callx := by simpa using hx
    exact absurd hx' hnone
  · rintro ⟨callx, hx, -, hx'⟩
    simp [hc callx hx] at hx'
  · obtain rfl : _ = r := Option.some.inj hr
    exact ⟨(owner_of_none hid).symm, Nat.lt_succ_self _⟩

/-- A call with a lease gets an instance. -/
theorem getAggregate (hS : Shape H s) {c : ℕ} {call call' : Call I V σ}
    (hc : s.calls c = some call) (hh : call'.handler = call.handler) (hcmd : call'.cmd = call.cmd)
    (hl : call.phase.leased) : Shape H (H.getAggregate s c call') := by
  have hid' : aggregateId call' = aggregateId call := by simp [aggregateId, hcmd]
  rcases hid : aggregateId call with _ | id
  · exact hS.createAggregate (fun callx hx => Option.some.inj (hc.symm.trans hx) ▸ hid)
      (hid'.trans hid)
  simp only [CommandHandlers.getAggregate, hid'.trans hid]
  have hS' := hS.getCacheEntry call'.handler id
  have hentry := getCacheEntry_ref s call'.handler id
  have hne := getCacheEntry_ne_none s call'.handler id (hh ▸ hS.has hc hid)
  have hcalls := getCacheEntry_calls s call'.handler id
  generalize CommandHandlers.getCacheEntry s call'.handler id = e at hS' hentry hne hcalls ⊢
  obtain ⟨t, ref⟩ := e
  simp only at hS' hentry hne hcalls
  have hsome : aggregateId ({ call' with phase := .aggregate ref } : Call I V σ) = some id :=
    hid'.trans hid
  refine hS'.setCall (fun h i => ?_) (fun i hi _ => ⟨call, hcalls ▸ hc, hh.symm, ?_, hl⟩)
    (fun r hr => ?_) fun i hi _ => ?_
  · simp [Uses, aggregateId, hcalls, hc, hh, hcmd]
  · rw [hid, ← hsome]
    exact hi
  · obtain rfl : ref = some r := hr
    rw [owner_of_some hsome]
    exact (hS'.entry call'.handler id).value r hentry
  · obtain rfl : id = i := Option.some.inj (hsome.symm.trans hi)
    exact ⟨hne, hentry⟩

omit [DecidableEq I] in
/-- A call lets go of its instance and keeps its lease. -/
theorem letGo (hS : Shape H s) {c : ℕ} {call : Call I V σ} (hc : s.calls c = some call)
    (hl : call.phase.leased) :
    Shape H (s.setCall c { call with phase := .acquiring .acquired }) :=
  hS.goesOn hc rfl rfl (fun _ => hl) (fun r hr => by simp [Phase.ref] at hr)
    fun he => by simp [Phase.atEntry] at he

/-- A call with a lease drops its instance, and the entry's. -/
theorem reset (hS : Shape H s) {c : ℕ} {call : Call I V σ} (hc : s.calls c = some call)
    (hl : call.phase.leased) : Shape H ((CommandHandlers.resetCacheEntry s call).setCall c
      { call with phase := .acquiring .acquired }) := by
  rw [← resetCacheEntry_setCall]
  have h := (hS.letGo hc hl).resetCacheEntry
    (Sys.setCall_calls_self s c { call with phase := .acquiring .acquired }) rfl rfl
  exact h

theorem throwFrom (hS : Shape H s) {c : ℕ} {call : Call I V σ} (hc : s.calls c = some call)
    (hl : call.phase.leased) : Shape H (H.throwFrom s c call) := by
  rw [CommandHandlers.throwFrom,
    ← finish_setCall H _ c call { call with phase := .acquiring .acquired }]
  have h := (hS.reset hc hl).finish
    (Sys.setCall_calls_self _ c { call with phase := .acquiring .acquired }) rfl
  exact h

/-- A call that resets the entry may keep its instance to itself. -/
theorem keep (hS : Shape H s) {c : ℕ} {call : Call I V σ} {phase : Phase I V σ}
    (hc : s.calls c = some call) (hr : phase.ref = call.phase.ref) (hl : call.phase.leased)
    (he : phase.atEntry = false) :
    Shape H ((CommandHandlers.resetCacheEntry s call).goOn c call phase) := by
  have h : Shape H (Sys.setCall _ c { call with phase }) := (hS.reset hc hl).setCall
    (fun h id => by simp [Uses, aggregateId])
    (fun id hid _ => ⟨{ call with phase := .acquiring .acquired }, by simp, rfl, hid, rfl⟩)
    (fun r h => ?_) fun id _ h => by simp [he] at h
  · rwa [Sys.setCall_setCall] at h
  · rw [Sys.setCall_world, resetCacheEntry_world]
    exact (hS.calls c call hc).ref r (hr ▸ h)

theorem execute (hS : Shape H s) {c h : ℕ} {cmd : Command I V} (hc : s.calls c = none) :
    Shape H (H.execute s c h cmd) := by
  simp only [CommandHandlers.execute]
  split
  · rename_i hid
    exact hS.createAggregate (fun call' hc' => by simp [hc] at hc') hid
  · rename_i id hid
    let call : Call I V σ := { handler := h, cmd, phase := .acquiring (.blockingLock 0) }
    have h1 := hS.begin hc (show aggregateId call = some id from hid) rfl
    have h2 : Shape H ((allocateCacheEntry s h id).setCall c call) := by
      rw [allocateCacheEntry_eq]
      exact h1.getCacheEntry h id
    have h3 : Shape H ((((allocateCacheEntry s h id).setLock h _).setCall c call).setCall c _) :=
      h2.setLock (Sys.setCall_calls_self ..) hid (Lock.acquire_spec rfl)
    rwa [Sys.setCall_setCall] at h3

omit [DecidableEq I] in
theorem addCommit (hS : Shape H s) (commit : Commit I V σ) : Shape H (s.addCommit commit) where
  entry h id := (hS.entry h id).congr rfl rfl rfl rfl (Nat.le_refl _)
  calls c call hc := ⟨(hS.calls c call hc).ref, (hS.calls c call hc).lock⟩
  mutex := hS.mutex
  fresh := hS.fresh

/-- The instances stay those that were made. -/
theorem setInstance (hS : Shape H s) {r : Ref I} (i : Instance I V σ)
    (hr : s.world.instances r ≠ none) : Shape H (s.setWorld (s.world.setInstance r i)) := by
  refine hS.setWorld (Nat.le_refl _) fun r' hr' => ?_
  by_cases h : r' = r
  · exact h ▸ hS.fresh r hr
  · exact hS.fresh r' (by simpa [World.setInstance, h] using hr')

end Shape

variable [Truthy V]

/-- What the dispatch of a batch does to the snapshot storage, and where it is then. -/
inductive Dispatches (w : Storages I V) :
    Dispatching I V → InMemorySnapshotStorage I V → Dispatching I V → Prop
  | rejected {processors : List Stage} {data : List (Envelope I V)} {todo : List (Event I V)}
      {error : DispatchError I} (h : (w.eventStorage.process data).2 = .error error) :
      Dispatches w (.processing (.inMemoryEventStorage :: processors) data) w.snapshotStorage
        (.reverting todo error)
  | starts {processors : List Stage} {data : List (Envelope I V)} :
      Dispatches w (.processing (.inMemorySnapshotStorage :: processors) data) w.snapshotStorage
        (.saving processors data (InMemorySnapshotStorage.snapshotEvents data))
  | saves {processors : List Stage} {data : List (Envelope I V)} {event : Event I V}
      {todo : List (Event I V)} {snapshotStorage : InMemorySnapshotStorage I V}
      (h : w.snapshotStorage.saveAggregateSnapshot event = .ok snapshotStorage) :
      Dispatches w (.saving processors data (event :: todo)) snapshotStorage
        (.saving processors data todo)
  | notSaved {processors : List Stage} {data : List (Envelope I V)} {event : Event I V}
      {todo todo' : List (Event I V)} {error : DispatchError I}
      (h : w.snapshotStorage.saveAggregateSnapshot event = .error error) :
      Dispatches w (.saving processors data (event :: todo)) w.snapshotStorage
        (.reverting todo' error)
  | saved {processors : List Stage} {data : List (Envelope I V)} :
      Dispatches w (.saving processors data []) w.snapshotStorage
        (.processing processors (InMemorySnapshotStorage.withoutSnapshots data))
  | deletes {event : Event I V} {todo : List (Event I V)} {error : DispatchError I}
      {snapshotStorage : InMemorySnapshotStorage I V}
      (h : w.snapshotStorage.deleteAggregateSnapshot event = .ok snapshotStorage) :
      Dispatches w (.reverting (event :: todo) error) snapshotStorage (.reverting todo error)
  | notDeleted {event : Event I V} {todo : List (Event I V)} {error error' : DispatchError I} :
      Dispatches w (.reverting (event :: todo) error) w.snapshotStorage (.reverting [] error')

/-- The action of a handler's call. -/
def Action.calls (c : ℕ) : Method V → Action I V
  | .emit type payload => .emit c type payload
  | .takeSnapshot => .takeSnapshot c

variable (H) in
/-- What a step does: a case for each way a call goes on, with what the step found. -/
inductive Effect (s : Sys I V σ) : Action I V → Sys I V σ → Prop
  | execute {c h : ℕ} {cmd : Command I V} (hc : s.calls c = none) :
      Effect s (.execute c h cmd) (H.execute s c h cmd)
  | acquire {c : ℕ} {call : Call I V σ} {id : I} {awaits awaits' : Acquiring} {lock : Lock}
      (hc : s.calls c = some call) (hid : aggregateId call = some id)
      (hp : call.phase = .acquiring awaits)
      (hr : (s.lock call.handler).resume (H.lockName id) awaits = some (lock, awaits')) :
      Effect s (.acquire c) ((s.setLock call.handler lock).goOn c call (.acquiring awaits'))
  | lease {c : ℕ} {call : Call I V σ} (hc : s.calls c = some call)
      (hp : call.phase = .acquiring .acquired) : Effect s (.lease c) (H.getAggregate s c call)
  | restored {ref : Ref I} {id : I} {snapshot : Option (Event I V)} {aggregate : Aggregate I V σ}
      (hi : s.world.instances ref = some (.restoring id snapshot))
      (ha : H.aggregateType.mutateAll (H.aggregateType.create id)
        (H.aggregateType.getAggregateEvents s.world.storages.eventStorage.events id snapshot) =
          some aggregate) :
      Effect s (.restore ref) (s.setWorld (s.world.setInstance ref (.ready aggregate
        (H.aggregateType.getAggregateEvents s.world.storages.eventStorage.events id snapshot))))
  | failed {a : Action I V} {ref : Ref I} {id : I} {snapshot : Option (Event I V)}
      (hi : s.world.instances ref = some (.restoring id snapshot)) :
      Effect s a (s.setWorld (s.world.setInstance ref .failed))
  | notHandled {a : Action I V} {c : ℕ} {call : Call I V σ} {ref : Option (Ref I)}
      (hc : s.calls c = some call) (hp : call.phase = .aggregate ref) :
      Effect s a (H.throwFrom s c call)
  | notRestored {a : Action I V} {c : ℕ} {call : Call I V σ} {ref : Option (Ref I)}
      (hc : s.calls c = some call) (hp : call.phase = .aggregate ref) :
      Effect s a (H.finish s c call)
  | handled {c : ℕ} {call : Call I V σ} {ref : Ref I} {aggregate : Aggregate I V σ}
      {applied : List (Event I V)} (hc : s.calls c = some call)
      (hp : call.phase = .aggregate (some ref))
      (hi : s.world.instances ref = some (.ready aggregate applied))
      (hcmd : aggregate.command = none) :
      Effect s (.handle c) ((s.setWorld (s.world.setInstance ref
        (.ready { aggregate with command := some call.cmd } applied))).goOn c call
          (.handler { ref, start := aggregate, eventsOffset := aggregate.changes.length } false))
  | called {a : Action I V} {c : ℕ} {call : Call I V σ} {attempt : Attempt I V σ}
      {emitThrew returned : Bool} {method : Method V} {aggregate aggregate' : Aggregate I V σ}
      {applied : List (Event I V)} (hc : s.calls c = some call)
      (hp : call.phase = .handler attempt emitThrew)
      (hi : s.world.instances attempt.ref = some (.ready aggregate applied))
      (ha : a = .calls c method)
      (hm : H.aggregateType.callMethod aggregate method = (aggregate', returned)) :
      Effect s a ((s.setWorld (s.world.setInstance attempt.ref (.ready aggregate'
        (applied ++ aggregate'.changes.drop aggregate.changes.length)))).goOn c call
          (.handler { attempt with methods := attempt.methods ++ [method] }
            (emitThrew || !returned)))
  | threw {a : Action I V} {c : ℕ} {call : Call I V σ} {attempt : Attempt I V σ}
      {emitThrew : Bool} {aggregate aggregate' : Aggregate I V σ} {applied : List (Event I V)}
      (hc : s.calls c = some call) (hp : call.phase = .handler attempt emitThrew)
      (hi : s.world.instances attempt.ref = some (.ready aggregate applied))
      (hid : aggregate'.id = aggregate.id) :
      Effect s a (H.throwFrom (s.setWorld (s.world.setInstance attempt.ref (.ready aggregate'
        (applied ++ aggregate'.changes.drop aggregate.changes.length)))) c call)
  | returned {c : ℕ} {call : Call I V σ} {attempt : Attempt I V σ} {emitThrew b : Bool}
      {aggregate aggregate' : Aggregate I V σ} {applied events : List (Event I V)}
      (hc : s.calls c = some call) (hp : call.phase = .handler attempt emitThrew)
      (hi : s.world.instances attempt.ref = some (.ready aggregate applied))
      (ha : H.aggregateType.getUncommittedEvents aggregate b attempt.eventsOffset =
        (aggregate', some events)) {s' : Sys I V σ}
      (hs : ∀ t, t = s.setWorld (s.world.setInstance attempt.ref
          (.ready { aggregate' with command := none }
            (applied ++ aggregate'.changes.drop aggregate.changes.length))) →
        events = [] ∧ s' = H.finish t c call
        ∨ events ≠ [] ∧ s' = t.goOn c call (.dispatch { attempt with shouldTakeSnapshot := b }
          events false (H.dispatch events false))) :
      Effect s (.handlerReturns c b) s'
  | committed {c : ℕ} {call : Call I V σ} {attempt : Attempt I V σ} {events : List (Event I V)}
      {ignoreConcurrencyError : Bool} {processors : List Stage} {data data' : List (Envelope I V)}
      {eventStorage : InMemoryEventStorage I V} (hc : s.calls c = some call)
      (hp : call.phase = .dispatch attempt events ignoreConcurrencyError
        (.processing (.inMemoryEventStorage :: processors) data))
      (hr : s.world.storages.eventStorage.process data = (eventStorage, .ok data')) :
      Effect s (.process c) (((s.setWorld (s.world.setEventStorage eventStorage)).addCommit {
        handler := call.handler
        cmd := call.cmd
        attempt
        emitted := events
        events := data.filterMap (·.event) }).goOn c call
          (.dispatch attempt events ignoreConcurrencyError (.processing processors data')))
  | dispatching {c : ℕ} {call : Call I V σ} {attempt : Attempt I V σ} {events : List (Event I V)}
      {ignoreConcurrencyError : Bool} {awaits awaits' : Dispatching I V}
      {snapshotStorage : InMemorySnapshotStorage I V} (hc : s.calls c = some call)
      (hp : call.phase = .dispatch attempt events ignoreConcurrencyError awaits)
      (hd : Dispatches s.world.storages awaits snapshotStorage awaits') :
      Effect s (.process c) ((s.setWorld (s.world.setSnapshotStorage snapshotStorage)).goOn c call
        (.dispatch attempt events ignoreConcurrencyError awaits'))
  | dispatched {a : Action I V} {c : ℕ} {call : Call I V σ} {attempt : Attempt I V σ}
      {events : List (Event I V)} {ignoreConcurrencyError : Bool} {awaits : Dispatching I V}
      (hc : s.calls c = some call)
      (hp : call.phase = .dispatch attempt events ignoreConcurrencyError awaits)
      (ha : (∃ data, awaits = .processing [] data)
        ∨ ignoreConcurrencyError = true ∧ ∃ error, awaits = .reverting [] error) :
      Effect s a (H.finish s c call)
  | settled {c : ℕ} {call : Call I V σ} {attempt : Attempt I V σ} {events : List (Event I V)}
      {error : DispatchError I} {decision : RetryOnConcurrencyErrorDecision} {s' : Sys I V σ}
      (hc : s.calls c = some call)
      (hp : call.phase = .dispatch attempt events false (.reverting [] error))
      (hs : decision ≠ .yes ∧ s' = H.finish (resetCacheEntry s call) c call
        ∨ decision = .yes ∧ s' = H.getAggregate (resetCacheEntry s call) c
          { call with attempts := call.attempts + 1 }
        ∨ decision = .ignore ∧ events ≠ [] ∧ s' = (resetCacheEntry s call).goOn c call
          (.dispatch attempt events true (H.dispatch events true))) :
      Effect s (.settle c decision) s'
  | append {events : List (Event I V)} :
      Effect s (.append events) (s.setWorld (s.world.setEventStorage
        { s.world.storages.eventStorage with
          events := s.world.storages.eventStorage.events ++ events }))

theorem process_effect {s' : Sys I V σ} {c : ℕ} {call : Call I V σ} (hc : s.calls c = some call)
    (h : H.process s c call = some s') : Effect H s (.process c) s' := by
  simp only [process] at h
  split at h
  · rename_i attempt events flag awaits hp
    split at h
    · obtain rfl := Option.some.inj h
      exact .dispatched hc hp (.inl ⟨_, rfl⟩)
    · split at h
      · rename_i eventStorage data' hr
        obtain rfl := Option.some.inj h
        exact .committed hc hp hr
      · rename_i hr
        obtain rfl := Option.some.inj h
        exact .dispatching hc hp (.rejected (by rw [hr]))
    · obtain rfl := Option.some.inj h
      exact .dispatching hc hp .starts
    · obtain rfl := Option.some.inj h
      exact .dispatching hc hp .saved
    · split at h
      · rename_i ss hs
        obtain rfl := Option.some.inj h
        exact .dispatching hc hp (.saves hs)
      · rename_i hs
        obtain rfl := Option.some.inj h
        exact .dispatching hc hp (.notSaved hs)
    · split at h
      · rename_i ss hs
        obtain rfl := Option.some.inj h
        exact .dispatching hc hp (.deletes hs)
      · obtain rfl := Option.some.inj h
        exact .dispatching hc hp .notDeleted
    · cases h
  · cases h

theorem handle_effect {s' : Sys I V σ} {c : ℕ} {call : Call I V σ} (hc : s.calls c = some call)
    (h : H.handle s c call = some s') : Effect H s (.handle c) s' := by
  simp only [handle] at h
  split at h
  · rename_i hp
    obtain rfl := Option.some.inj h
    exact .notHandled hc hp
  · rename_i ref hp
    split at h
    · rename_i aggregate applied hi
      split at h
      · obtain rfl := Option.some.inj h
        exact .notHandled hc hp
      · rename_i aggregate' offset ha
        obtain rfl := Option.some.inj h
        simp only [Aggregate.handle] at ha
        split at ha
        · cases ha
        · rename_i hcmd
          cases ha
          exact .handled hc hp hi hcmd
    · obtain rfl := Option.some.inj h
      exact .notRestored hc hp
    · cases h
  · cases h

theorem callAggregate_effect {s' : Sys I V σ} {a : Action I V} {c : ℕ} {call : Call I V σ}
    {method : Method V} (hc : s.calls c = some call) (ha : a = .calls c method)
    (h : H.callAggregate s c call method = some s') : Effect H s a s' := by
  simp only [callAggregate] at h
  split at h
  · rename_i attempt emitThrew hp
    split at h
    · rename_i aggregate applied hi
      obtain rfl := Option.some.inj h
      exact .called hc hp hi ha rfl
    · cases h
  · cases h

theorem handlerThrows_effect {s' : Sys I V σ} {c : ℕ} {call : Call I V σ}
    (hc : s.calls c = some call)
    (h : H.handlerEnds s c call false (fun _ aggregate => (aggregate, none)) = some s') :
    Effect H s (.handlerThrows c) s' := by
  simp only [handlerEnds] at h
  split at h
  · rename_i attempt emitThrew hp
    split at h
    · rename_i aggregate applied hi
      obtain rfl := Option.some.inj h
      exact .threw hc hp hi (show { aggregate with command := none }.id = _ from rfl)
    · cases h
  · cases h

theorem handlerReturns_effect {s' : Sys I V σ} {c : ℕ} {call : Call I V σ} {b : Bool}
    (hc : s.calls c = some call)
    (h : H.handlerEnds s c call b (fun attempt aggregate =>
      H.aggregateType.getUncommittedEvents aggregate b attempt.eventsOffset) = some s') :
    Effect H s (.handlerReturns c b) s' := by
  simp only [handlerEnds] at h
  split at h
  · rename_i attempt emitThrew hp
    split at h
    · rename_i aggregate applied hi
      split at h
      · obtain rfl := Option.some.inj h
        exact .threw hc hp hi (show { (H.aggregateType.getUncommittedEvents aggregate b
          attempt.eventsOffset).1 with command := none }.id = _ from
            AggregateType.getUncommittedEvents_id ..)
      · rename_i ha
        obtain rfl := Option.some.inj h
        exact .returned hc hp hi (Prod.ext rfl ha) fun t ht => .inl ⟨rfl, ht ▸ rfl⟩
      · rename_i events hne ha
        obtain rfl := Option.some.inj h
        exact .returned hc hp hi (Prod.ext rfl ha) fun t ht =>
          .inr ⟨fun he => hne (he ▸ rfl), ht ▸ rfl⟩
    · cases h
  · cases h

theorem settle_effect {s' : Sys I V σ} {c : ℕ} {call : Call I V σ}
    {decision : RetryOnConcurrencyErrorDecision} (hc : s.calls c = some call)
    (h : H.settle s c call decision = some s') : Effect H s (.settle c decision) s' := by
  simp only [settle] at h
  split at h
  · rename_i attempt events flag error hp
    rcases flag with _ | _
    · rw [if_neg Bool.false_ne_true] at h
      refine .settled hc hp ?_
      cases decision with
      | no => exact .inl ⟨by simp, (Option.some.inj h).symm⟩
      | yes => exact .inr (.inl ⟨rfl, (Option.some.inj h).symm⟩)
      | ignore =>
        simp only at h
        split_ifs at h with he
        · exact .inl ⟨by simp, (Option.some.inj h).symm⟩
        · exact .inr (.inr ⟨rfl, fun h => by simp [h] at he, (Option.some.inj h).symm⟩)
    · rw [if_pos rfl] at h
      obtain rfl := Option.some.inj h
      exact .dispatched hc hp (.inr ⟨rfl, _, rfl⟩)
  · cases h

theorem step_effect {s' : Sys I V σ} {a : Action I V} (h : H.step s a = some s') :
    Effect H s a s' := by
  cases a with
  | execute c h' cmd =>
    simp only [step] at h
    split_ifs at h with hc
    obtain rfl := Option.some.inj h
    exact .execute (by simpa using (Bool.and_eq_true_iff.1 hc).1)
  | acquire c =>
    obtain ⟨call, hc, h⟩ := Option.bind_eq_some_iff.1 h
    simp only [acquire] at h
    split at h
    · rename_i awaits id hp hid
      obtain ⟨⟨lock, awaits'⟩, hr, rfl⟩ := Option.map_eq_some_iff.1 h
      exact .acquire hc hid hp hr
    · cases h
  | lease c =>
    obtain ⟨call, hc, h⟩ := Option.bind_eq_some_iff.1 h
    simp only [lease] at h
    split at h
    · rename_i hp
      obtain rfl := Option.some.inj h
      exact .lease hc hp
    · cases h
  | restore ref =>
    obtain ⟨w, hw, rfl⟩ := Option.map_eq_some_iff.1 h
    simp only [restore] at hw
    split at hw
    · rename_i id snapshot hi
      split at hw
      · rename_i aggregate ha
        obtain rfl := Option.some.inj hw
        exact .restored hi ha
      · obtain rfl := Option.some.inj hw
        exact .failed hi
    · cases hw
  | restoreFails ref =>
    simp only [step] at h
    split at h
    · rename_i hi
      obtain rfl := Option.some.inj h
      exact .failed hi
    · cases h
  | handle c =>
    obtain ⟨call, hc, h⟩ := Option.bind_eq_some_iff.1 h
    exact handle_effect hc h
  | emit c type payload =>
    obtain ⟨call, hc, h⟩ := Option.bind_eq_some_iff.1 h
    exact callAggregate_effect hc rfl h
  | takeSnapshot c =>
    obtain ⟨call, hc, h⟩ := Option.bind_eq_some_iff.1 h
    exact callAggregate_effect hc rfl h
  | handlerThrows c =>
    obtain ⟨call, hc, h⟩ := Option.bind_eq_some_iff.1 h
    exact handlerThrows_effect hc h
  | handlerReturns c b =>
    obtain ⟨call, hc, h⟩ := Option.bind_eq_some_iff.1 h
    exact handlerReturns_effect hc h
  | process c =>
    obtain ⟨call, hc, h⟩ := Option.bind_eq_some_iff.1 h
    exact process_effect hc h
  | settle c decision =>
    obtain ⟨call, hc, h⟩ := Option.bind_eq_some_iff.1 h
    exact settle_effect hc h
  | append events =>
    obtain rfl := Option.some.inj h
    exact .append

theorem Effect.shape {s' : Sys I V σ} {a : Action I V} (hS : Shape H s) (h : Effect H s a s') :
    Shape H s' := by
  cases h with
  | execute hc => exact hS.execute hc
  | acquire hc hid _ hr => exact hS.setLock hc hid (Lock.resume_spec hr)
  | lease hc hp => exact hS.getAggregate hc rfl rfl (by simp [hp, Phase.leased])
  | restored hi _ | failed hi => exact hS.setInstance _ (by simp [hi])
  | notHandled hc hp => exact hS.throwFrom hc (by simp [hp, Phase.leased])
  | notRestored hc hp => exact hS.finish hc (by simp [hp, Phase.leased])
  | handled hc hp hi _ =>
    exact (hS.setInstance _ (by simp [hi])).goOn hc (by simp [hp, Phase.leased])
      (by simp [hp, Phase.ref]) (by simp [hp, Phase.atEntry])
  | called hc hp hi _ _ =>
    exact (hS.setInstance _ (by simp [hi])).goOn hc (by simp [hp, Phase.leased])
      (by simp [hp, Phase.ref]) (by simp [hp, Phase.atEntry])
  | threw hc hp hi _ =>
    exact (hS.setInstance _ (by simp [hi])).throwFrom hc (by simp [hp, Phase.leased])
  | returned hc hp hi _ hs =>
    rcases hs _ rfl with ⟨-, rfl⟩ | ⟨-, rfl⟩
    · exact (hS.setInstance _ (by simp [hi])).finish hc (by simp [hp, Phase.leased])
    · exact (hS.setInstance _ (by simp [hi])).goOn hc (by simp [hp, Phase.leased])
        (by simp [hp, Phase.ref]) (by simp [hp, Phase.atEntry])
  | committed hc hp _ =>
    refine Shape.goOn (Shape.addCommit (hS.setWorld ?_ ?_) _) hc ?_ ?_ ?_
    · exact Nat.le_refl _
    · exact hS.fresh
    all_goals simp [hp, Phase.leased, Phase.ref, Phase.atEntry]
  | dispatching hc hp _ =>
    refine Shape.goOn (hS.setWorld ?_ ?_) hc ?_ ?_ ?_
    · exact Nat.le_refl _
    · exact hS.fresh
    all_goals simp [hp, Phase.leased, Phase.ref, Phase.atEntry]
  | dispatched hc hp _ => exact hS.finish hc (by simp [hp, Phase.leased])
  | @settled c call _ _ _ _ _ hc hp hs =>
    have hl : call.phase.leased := by simp [hp, Phase.leased]
    rcases hs with ⟨-, rfl⟩ | ⟨-, rfl⟩ | ⟨-, -, rfl⟩
    · exact hS.throwFrom hc hl
    · rw [← getAggregate_setCall H _ c _ { call with phase := .acquiring .acquired }]
      exact (hS.reset hc hl).getAggregate (Sys.setCall_calls_self ..) rfl rfl rfl
    · exact hS.keep hc (by simp [hp, Phase.ref]) hl rfl
  | append => exact hS.setWorld (Nat.le_refl _) hS.fresh

omit [DecidableEq I] [Truthy V] in
theorem shape_init : Shape H ({} : Sys I V σ) where
  entry h id := by
    refine ⟨⟨[], List.nodup_nil, fun c => ?_, rfl⟩, fun h => absurd h (Nat.lt_irrefl 0),
      fun _ => rfl, fun _ h => ?_, fun _ h => ?_, fun _ _ h => ?_⟩
    · simp [Uses]
    all_goals cases h
  calls _ _ h := by cases h
  mutex _ _ _ _ _ _ h := by cases h
  fresh _ h := absurd rfl h

theorem reach_shape {C : Sys I V σ → Action I V → Prop} {s : Sys I V σ}
    (h : H.machine.ReachIf C s) : Shape H s := by
  refine h.invariant (P := Shape H) (fun s hs => ?_) fun s a s' hS _ hst =>
    (step_effect hst).shape hS
  exact (show s = {} from hs) ▸ shape_init

end CommandHandlers

end NodeCqrs
