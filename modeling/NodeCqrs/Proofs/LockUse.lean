import NodeCqrs.Microtasks
import NodeCqrs.Proofs.AggregateCommandHandler

/-!
# What the handlers' steps do to their locks

A call's use of its lock (`lockUse`) begins with `execute`, goes on as its `acquire` is granted the
lock or awaits it (`execute_acquires`, `acquire_acquires`, `lease_uses`), and then stays until the
call ends and releases it (`keeps_of_effect`).
-/

namespace NodeCqrs

variable {I V σ : Type}

/-- What the call's `acquire` awaits, until it has returned. -/
def Phase.awaits : Phase I V σ → Option Acquiring
  | .acquiring awaits => some awaits
  | _ => none

theorem Phase.leased_iff (p : Phase I V σ) :
    p.leased ↔ p.awaits = none ∨ p.awaits = some .acquired := by
  cases p <;> simp [leased, awaits]

/-- The lock of a call, and what its `acquire` awaits. -/
structure LockUse where
  handler : ℕ
  name : String
  awaits : Option Acquiring

namespace Microtasks

open CommandHandlers (Sys aggregateId Effect)

variable [DecidableEq I] [Truthy I] (H : CommandHandlers I V σ)

def useOf (call : Call I V σ) : Option LockUse :=
  (aggregateId call).map fun id =>
    { handler := call.handler, name := H.lockName id, awaits := call.phase.awaits }

def lockUse (s : Sys I V σ) (c : ℕ) : Option LockUse := (s.calls c).bind (useOf H)

/-- The name of the lock of a command's aggregate, if it names one. -/
def lockName (cmd : Command I V) : Option String :=
  (cmd.aggregateId.filter (truthy ·)).map H.lockName

/-! ## What a step does to the locks -/

section uses

variable (s : Sys I V σ) (c c' h : ℕ) (call : Call I V σ)

omit [DecidableEq I] in
@[simp] theorem lockUse_setWorld (w : World I V σ) :
    lockUse H (s.setWorld w) c' = lockUse H s c' := rfl

omit [DecidableEq I] in
@[simp] theorem lockUse_addCommit (k : Commit I V σ) :
    lockUse H (s.addCommit k) c' = lockUse H s c' := rfl

omit [DecidableEq I] in
@[simp] theorem lockUse_setLock (l : Lock) : lockUse H (s.setLock h l) c' = lockUse H s c' := rfl

omit [DecidableEq I] in
@[simp] theorem lockUse_setCall : lockUse H (s.setCall c call) c' =
    if c' = c then useOf H call else lockUse H s c' := by
  by_cases hc : c' = c <;> simp [lockUse, hc]

@[simp] theorem lockUse_resetCacheEntry :
    lockUse H (CommandHandlers.resetCacheEntry s call) c' = lockUse H s c' := by
  simp [lockUse]

theorem lockUse_finish : lockUse H (H.finish s c call) c' =
    if c' = c then none else lockUse H s c' := by
  by_cases hc : c' = c <;> simp [lockUse, hc]

@[simp] theorem resetCacheEntry_lock :
    (CommandHandlers.resetCacheEntry s call).lock h = s.lock h := by
  simp only [CommandHandlers.resetCacheEntry]
  split
  · rfl
  · simp

theorem finish_lock_none (hid : aggregateId call = none) :
    (H.finish s c call).lock h = s.lock h := by
  simp only [CommandHandlers.finish, hid]
  rfl

theorem finish_lock_some {id : I} (hid : aggregateId call = some id) :
    (H.finish s c call).lock h = if h = call.handler then
      (s.lock call.handler).release (H.lockName id) else s.lock h := by
  simp [CommandHandlers.finish, hid]

theorem getAggregate_lock : (H.getAggregate s c call).lock h = s.lock h := by
  simp only [CommandHandlers.getAggregate]
  split
  · simp [Sys.goOn, CommandHandlers.getCacheEntry]
  · rfl

omit [DecidableEq I] in
theorem useOf_phase (phase : Phase I V σ) : useOf H { call with phase } =
    (useOf H call).map ({ · with awaits := phase.awaits }) := by
  unfold useOf
  rw [Option.map_map]
  rfl

omit [DecidableEq I] in
@[simp] theorem lockUse_goOn (phase : Phase I V σ) : lockUse H (s.goOn c call phase) c' =
    if c' = c then (useOf H call).map ({ · with awaits := phase.awaits }) else lockUse H s c' := by
  rw [Sys.goOn, lockUse_setCall, useOf_phase]

theorem lockUse_getAggregate : lockUse H (H.getAggregate s c call) c' =
    if c' = c then (useOf H call).map ({ · with awaits := none }) else lockUse H s c' := by
  unfold CommandHandlers.getAggregate
  split
  · exact lockUse_goOn H _ c c' call _
  · exact lockUse_goOn H (s.setWorld _) c c' call _

end uses

/-- The calls and the locks are as before, as far as the locks go. -/
structure Same (s s' : Sys I V σ) : Prop where
  uses : ∀ c, lockUse H s' c = lockUse H s c
  lock : ∀ h, s'.lock h = s.lock h

/-- The call has ended, and released its lock. -/
structure Finishes (s s' : Sys I V σ) (c h : ℕ) (name : String) : Prop where
  use : lockUse H s c = some ⟨h, name, none⟩
  uses : ∀ c', lockUse H s' c' = if c' = c then none else lockUse H s c'
  lock : ∀ h', s'.lock h' = if h' = h then (s.lock h).release name else s.lock h'

def Keeps (s s' : Sys I V σ) : Prop := Same H s s' ∨ ∃ c h name, Finishes H s s' c h name

/-- The call has asked for its lock. -/
structure Acquires (s s' : Sys I V σ) (c h : ℕ) (name : String) (l : Lock) (awaits : Acquiring) :
    Prop where
  acquireBlocked : (s.lock h).acquireBlocked name = (l, awaits)
  uses : ∀ c', lockUse H s' c' = if c' = c then some ⟨h, name, some awaits⟩ else lockUse H s c'
  lock : ∀ h', s'.lock h' = if h' = h then l else s.lock h'

variable {H} {s s' t : Sys I V σ} {c : ℕ} {call : Call I V σ}

omit [DecidableEq I] in
theorem lockUse_of_calls (hc : s.calls c = some call) : lockUse H s c = useOf H call := by
  simp [lockUse, hc]

omit [DecidableEq I] in
theorem useOf_awaits {awaits : Option Acquiring} (hp : call.phase.awaits = awaits) :
    (useOf H call).map ({ · with awaits }) = useOf H call := by
  subst hp
  unfold useOf
  rw [Option.map_map]
  rfl

theorem Same.finish (ht : Same H s t) (hc : s.calls c = some call)
    (hp : call.phase.awaits = none) : Keeps H s (H.finish t c call) := by
  rcases hid : aggregateId call with _ | id
  · refine .inl ⟨fun c' => ?_, fun h => (finish_lock_none H t c h call hid).trans (ht.lock h)⟩
    rw [lockUse_finish, ht.uses]
    split_ifs with hcc
    · rw [hcc, lockUse_of_calls hc, useOf, hid]
      rfl
    · rfl
  · refine .inr ⟨c, call.handler, H.lockName id, ?_, fun c' => ?_, fun h' => ?_⟩
    · rw [lockUse_of_calls hc, useOf, hid, hp]
      rfl
    · rw [lockUse_finish, ht.uses]
    · rw [finish_lock_some H t c h' call hid, ht.lock, ht.lock]

omit [DecidableEq I] in
theorem Same.goOn (ht : Same H s t) (hc : s.calls c = some call) (hp : call.phase.awaits = none)
    {phase : Phase I V σ} (hphase : phase.awaits = none) : Same H s (t.goOn c call phase) := by
  refine ⟨fun c' => ?_, ht.lock⟩
  rw [lockUse_goOn, ht.uses, hphase, useOf_awaits hp]
  split_ifs with hcc
  · rw [hcc, lockUse_of_calls hc]
  · rfl

theorem Same.getAggregate (ht : Same H s t) (hc : s.calls c = some call)
    (hp : call.phase.awaits = none) {call' : Call I V σ} (hu : useOf H call' = useOf H call) :
    Same H s (H.getAggregate t c call') := by
  refine ⟨fun c' => ?_, fun h => (getAggregate_lock H t c h call').trans (ht.lock h)⟩
  rw [lockUse_getAggregate, ht.uses, hu, useOf_awaits hp]
  split_ifs with hcc
  · rw [hcc, lockUse_of_calls hc]
  · rfl

omit [DecidableEq I] in
theorem Same.setWorld (w : World I V σ) : Same H s (s.setWorld w) := ⟨fun _ => rfl, fun _ => rfl⟩

theorem Same.resetCacheEntry (ht : Same H s t) :
    Same H s (CommandHandlers.resetCacheEntry t call) :=
  ⟨fun c => (lockUse_resetCacheEntry H t c call).trans (ht.uses c),
    fun h => (resetCacheEntry_lock t h call).trans (ht.lock h)⟩

omit [DecidableEq I] in
theorem Same.addCommit (ht : Same H s t) (k : Commit I V σ) : Same H s (t.addCommit k) :=
  ⟨ht.uses, ht.lock⟩

/-- Once a call's `acquire` has returned, all it does to its lock is to release it at the end. -/
theorem keeps_of_effect [Truthy V] {x : CommandHandlers.Action I V} (h : Effect H s x s')
    (hx : acquirer x = none) (hl : ∀ c, x ≠ .lease c) : Keeps H s s' := by
  have hrefl : Same H s s := ⟨fun _ => rfl, fun _ => rfl⟩
  cases h with
  | execute | acquire => cases hx
  | lease => exact absurd rfl (hl _)
  | restored | failed | append => exact .inl (.setWorld _)
  | @notHandled _ c call _ hc hp =>
    have hreset : Same H s (CommandHandlers.resetCacheEntry s call) := hrefl.resetCacheEntry
    exact hreset.finish hc (by rw [hp]; rfl)
  | notRestored hc hp | dispatched hc hp => exact hrefl.finish hc (by rw [hp]; rfl)
  | handled hc hp | called hc hp => exact .inl ((Same.setWorld _).goOn hc (by rw [hp]; rfl) rfl)
  | committed hc hp =>
    exact .inl (((Same.setWorld _).addCommit _).goOn hc (by rw [hp]; rfl) rfl)
  | dispatching hc hp => exact .inl ((Same.setWorld _).goOn hc (by rw [hp]; rfl) rfl)
  | @threw _ c call _ _ _ _ _ hc hp =>
    have hreset : ∀ w, Same H s (CommandHandlers.resetCacheEntry (s.setWorld w) call) :=
      fun w => (Same.setWorld w).resetCacheEntry
    exact (hreset _).finish hc (by rw [hp]; rfl)
  | returned hc hp _ _ hs =>
    rcases hs _ rfl with ⟨-, rfl⟩ | ⟨-, rfl⟩
    · exact (Same.setWorld _).finish hc (by rw [hp]; rfl)
    · exact .inl ((Same.setWorld _).goOn hc (by rw [hp]; rfl) rfl)
  | @settled c call _ _ _ _ _ hc hp hs =>
    have hreset : Same H s (CommandHandlers.resetCacheEntry s call) := hrefl.resetCacheEntry
    rcases hs with ⟨-, rfl⟩ | ⟨-, rfl⟩ | ⟨-, -, rfl⟩
    · exact hreset.finish hc (by rw [hp]; rfl)
    · exact .inl (hreset.getAggregate hc (by rw [hp]; rfl) rfl)
    · exact .inl (hreset.goOn hc (by rw [hp]; rfl) rfl)

omit [DecidableEq I] in
theorem acquiring_of_use {h : ℕ} {name : String} {awaits : Option Acquiring}
    (hu : lockUse H s c = some ⟨h, name, awaits⟩) : acquiring s c = awaits := by
  obtain ⟨call, hc, hu⟩ := Option.bind_eq_some_iff.1 hu
  obtain ⟨id, -, hu⟩ := Option.map_eq_some_iff.1 hu
  obtain ⟨-, -, rfl⟩ := LockUse.mk.inj hu
  rw [acquiring, hc]
  rfl

omit [DecidableEq I] in
theorem isResolved_of_use {h d : ℕ} {name : String}
    (hu : lockUse H s c = some ⟨h, name, some (.blockingLock d)⟩) :
    isResolved s c = decide (d ∈ (s.lock h).resolved) := by
  have ha := acquiring_of_use hu
  obtain ⟨call, hc, hu⟩ := Option.bind_eq_some_iff.1 hu
  obtain ⟨id, -, hu⟩ := Option.map_eq_some_iff.1 hu
  obtain ⟨rfl, -, -⟩ := LockUse.mk.inj hu
  simp [isResolved, ha, hc, Acquiring.deferred]

theorem allocateCacheEntry_same (h : ℕ) (id : I) :
    Same H s (CommandHandlers.allocateCacheEntry s h id) := by
  refine ⟨fun _ => rfl, fun h' => ?_⟩
  simp [CommandHandlers.allocateCacheEntry]

variable [Truthy V]

/-- `execute` asks for the lock of its command's aggregate, if that has one. -/
theorem execute_acquires {h : ℕ} {cmd : Command I V}
    (hst : H.step s (.execute c h cmd) = some s') (hN : (s.lock h).Named)
    (hname : ∀ name, lockName H cmd = some name → name ≠ "") :
    s.calls c = none ∧ (Same H s s' ∧ acquiring s' c = none
      ∨ ∃ name l awaits, lockName H cmd = some name ∧ Acquires H s s' c h name l awaits) := by
  rw [CommandHandlers.step] at hst
  split_ifs at hst with hc
  have hc : s.calls c = none := by simpa using (Bool.and_eq_true_iff.1 hc).1
  obtain rfl := Option.some.inj hst
  refine ⟨hc, ?_⟩
  rcases hid : cmd.aggregateId.filter (truthy ·) with _ | id
  · refine .inl ⟨⟨fun c' => ?_, fun h' => ?_⟩, ?_⟩
    · simp only [CommandHandlers.execute, aggregateId, hid]
      rw [lockUse_getAggregate]
      split_ifs with hcc
      · simp [useOf, aggregateId, hid, hcc, lockUse, hc]
      · rfl
    · simp only [CommandHandlers.execute, aggregateId, hid]
      exact getAggregate_lock ..
    · simp [CommandHandlers.execute, aggregateId, hid, CommandHandlers.getAggregate, acquiring,
        Sys.goOn]
  · rcases hl : (s.lock h).acquire (H.lockName id) with ⟨l, awaits⟩
    have hsame := allocateCacheEntry_same (H := H) (s := s) h id
    have hl' : ((CommandHandlers.allocateCacheEntry s h id).lock h).acquire (H.lockName id)
        = (l, awaits) := by rw [hsame.lock, hl]
    have hcmd : lockName H cmd = some (H.lockName id) := by rw [lockName, hid]; rfl
    refine .inr ⟨_, l, awaits, hcmd, (hN.acquire (hname _ hcmd)).symm.trans hl,
      fun c' => ?_, fun h' => ?_⟩
    · simp [CommandHandlers.execute, aggregateId, hid, hl', hsame.uses, useOf, Phase.awaits]
    · simp [CommandHandlers.execute, aggregateId, hid, hl, hsame.lock, Sys.goOn]

theorem acquire_acquires {h d : ℕ} {name : String} (hst : H.step s (.acquire c) = some s')
    (hu : lockUse H s c = some ⟨h, name, some (.blockingLock d)⟩) :
    ∃ l awaits, Acquires H s s' c h name l awaits := by
  obtain ⟨call, hc, hst⟩ := Option.bind_eq_some_iff.1 hst
  obtain ⟨id, hid, hu⟩ := Option.map_eq_some_iff.1 ((lockUse_of_calls hc).symm.trans hu)
  obtain ⟨rfl, rfl, hp⟩ := LockUse.mk.inj hu
  simp only [CommandHandlers.acquire, hid] at hst
  split at hst
  · rename_i awaits id' hphase hid'
    obtain rfl := Option.some.inj hid'
    obtain ⟨⟨l, awaits'⟩, hr, rfl⟩ := Option.map_eq_some_iff.1 hst
    obtain rfl : awaits = .blockingLock d := by simpa [hphase, Phase.awaits] using hp
    simp only [Lock.resume] at hr
    split_ifs at hr
    refine ⟨l, awaits', Option.some.inj hr, fun c' => ?_, fun h' => ?_⟩
    · rw [lockUse_goOn, ← lockUse_of_calls hc, lockUse_of_calls hc, useOf, hid]
      rfl
    · simp [Sys.goOn]
  · cases hst

/-- The call whose `acquire` has returned is past it. -/
theorem lease_uses {h : ℕ} {name : String} (hst : H.step s (.lease c) = some s')
    (hu : lockUse H s c = some ⟨h, name, some .acquired⟩) :
    (∀ c', lockUse H s' c' = if c' = c then some ⟨h, name, none⟩ else lockUse H s c')
      ∧ ∀ h', s'.lock h' = s.lock h' := by
  obtain ⟨call, hc, hst⟩ := Option.bind_eq_some_iff.1 hst
  simp only [CommandHandlers.lease] at hst
  split at hst
  · obtain rfl := Option.some.inj hst
    refine ⟨fun c' => ?_, fun h' => getAggregate_lock ..⟩
    rw [lockUse_getAggregate, ← lockUse_of_calls hc, hu]
    rfl
  · cases hst

end Microtasks

end NodeCqrs
