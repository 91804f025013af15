import NodeCqrs.Proofs.LockCalls
import NodeCqrs.Utils.LockMicrotasks

/-!
# Priority of global requests

A global call that has to queue for its turn to acquire the lock is called on by a microtask, and
until that runs nothing holds back a named call that comes in. Otherwise the named calls that come
after it are behind it in the queue, or among those called on (`Inv.line`), and go past the queue
only when it is granted the lock (`Inv.past`).
-/

namespace NodeCqrs

namespace Lock

variable {l l' : Lock} {name : String} {awaits : Acquiring}

/-- The deferreds of the lock are numbered, and that of an acquiring is no lock and unresolved. -/
structure Distinct (l : Lock) : Prop where
  acquiring : ∀ d, l.globalLockAcquiringLock = some d →
    d < l.nextDeferred ∧ d ∉ l.resolved ∧ ¬ l.Blocks d
  blocks : ∀ d, l.Blocks d → d < l.nextDeferred
  resolved : ∀ d ∈ l.resolved, d < l.nextDeferred

theorem Distinct.empty : Distinct {} := by
  constructor <;> simp [Blocks]

/-- A global call begins to acquire the lock. -/
theorem Distinct.begin (h : l.Distinct) : Distinct { l with
    nextDeferred := l.nextDeferred + 1
    globalLockAcquiringLock := some l.nextDeferred } := by
  refine ⟨fun d hd => ?_, fun d hd => Nat.lt_succ_of_lt (h.blocks d hd),
    fun d hd => Nat.lt_succ_of_lt (h.resolved d hd)⟩
  obtain rfl := Option.some.inj hd
  exact ⟨Nat.lt_succ_self _, fun hr => Nat.lt_irrefl _ (h.resolved _ hr),
    fun hb => Nat.lt_irrefl _ (h.blocks _ hb)⟩

theorem blocks_take {d : ℕ} (hd : (l.take name).Blocks d) : l.Blocks d ∨ d = l.nextDeferred := by
  unfold take at hd
  split at hd
  · rcases hd with hd | hd
    · exact .inr (Option.some.inj hd).symm
    · exact .inl (.inr hd)
  · rcases hd with hd | hd
    · exact .inl (.inl hd)
    · simp only [List.map_append, List.mem_append] at hd
      rcases hd with hd | hd
      · exact .inl (.inr ((List.filter_sublist.map _).subset hd))
      · exact .inr (by simpa using hd)

theorem Distinct.take (h : l.Distinct) (name : String) : (l.take name).Distinct := by
  have hblocks : ∀ d, (l.take name).Blocks d → d < l.nextDeferred + 1 := fun d hd => by
    rcases blocks_take hd with hd | rfl
    · exact Nat.lt_succ_of_lt (h.blocks d hd)
    · exact Nat.lt_succ_self _
  have hlt : ∀ d ∈ l.globalLockAcquiringLock.toList ++ l.resolved, d < l.nextDeferred := by
    intro d hd
    rcases List.mem_append.1 hd with hd | hd
    · exact (h.acquiring d (Option.mem_toList.1 hd)).1
    · exact h.resolved d hd
  by_cases hname : name = ""
  · rw [Lock.take, if_pos hname] at hblocks ⊢
    exact ⟨fun d hd => (by cases hd), hblocks, fun d hd => Nat.lt_succ_of_lt (hlt d hd)⟩
  · have hnot : ∀ d, l.globalLockAcquiringLock = some d → ¬ (l.take name).Blocks d := by
      intro d hd hb
      obtain ⟨hlt, -, hno⟩ := h.acquiring d hd
      exact (blocks_take hb).elim hno (Nat.ne_of_lt hlt)
    rw [Lock.take, if_neg hname] at hblocks hnot ⊢
    exact ⟨fun d hd => ⟨Nat.lt_succ_of_lt (h.acquiring d hd).1, (h.acquiring d hd).2.1, hnot d hd⟩,
      hblocks, fun d hd => Nat.lt_succ_of_lt (h.resolved d hd)⟩

/-- A release resolves what blocked. -/
theorem mem_resolved_of_release {d : ℕ} (hd : d ∈ (l.release name).resolved) :
    l.Blocks d ∨ d ∈ l.resolved := by
  unfold release at hd
  split at hd <;> rcases List.mem_append.1 hd with hd | hd
  · exact .inl (.inl (Option.mem_toList.1 hd))
  · exact .inr hd
  · exact .inl (.inr (List.mem_map.2 ⟨_, Entries.mem_of_lookup (Option.mem_toList.1 hd), rfl⟩))
  · exact .inr hd

theorem blocks_of_release {d : ℕ} (hd : (l.release name).Blocks d) : l.Blocks d := by
  unfold release at hd
  split at hd
  · exact hd.elim (fun hd => by cases hd) .inr
  · exact hd.imp id fun hd => (List.filter_sublist.map _).subset hd

@[simp] theorem release_globalLockAcquiringLock (l : Lock) (name : String) :
    (l.release name).globalLockAcquiringLock = l.globalLockAcquiringLock := by
  unfold release
  split <;> rfl

@[simp] theorem release_nextDeferred (l : Lock) (name : String) :
    (l.release name).nextDeferred = l.nextDeferred := by
  unfold release
  split <;> rfl

theorem Distinct.release (h : l.Distinct) (name : String) : (l.release name).Distinct := by
  refine ⟨fun d hd => ?_, fun d hd => ?_, fun d hd => ?_⟩
  · rw [release_globalLockAcquiringLock] at hd
    obtain ⟨hlt, hr, hb⟩ := h.acquiring d hd
    refine ⟨?_, fun hr' => (mem_resolved_of_release hr').elim hb hr,
      fun hb' => hb (blocks_of_release hb')⟩
    rw [release_nextDeferred]
    exact hlt
  · rw [release_nextDeferred]
    exact h.blocks d (blocks_of_release hd)
  · rw [release_nextDeferred]
    exact (mem_resolved_of_release hd).elim (h.blocks d) (h.resolved d)

/-- Nothing blocks the name: there is no global lock, and it is taken. -/
theorem acquireBlocked_cases (h : l.acquireBlocked name = (l', awaits)) :
    (∃ d, l' = l ∧ awaits = .blockingLock d)
      ∨ l.globalLock = none ∧ l' = l.take name ∧ awaits = .acquired := by
  unfold acquireBlocked at h
  split at h
  · next d hd =>
    obtain ⟨rfl, rfl⟩ := Prod.mk.inj h
    exact .inl ⟨d, rfl, rfl⟩
  · next hfree =>
    obtain ⟨rfl, rfl⟩ := Prod.mk.inj h
    refine .inr ⟨?_, rfl, rfl⟩
    rcases hg : l.globalLock with _ | d
    · rfl
    · simp [getAnyBlockingLock, hg] at hfree

end Lock

namespace LockMicrotasks

variable {s : Sys} {r : Request} {l : Lock}

/-- It queues for its turn to acquire the lock. -/
def Waiter.queued (w : Waiter) : Bool :=
  match w.awaits with
  | .globalLockAcquiringLock _ => true
  | .blockingLock _ | .acquired => false

/-- Those in the queue. -/
def Sys.queue (s : Sys) : List Waiter := s.awaiting.filter (·.queued)

/-- Those of the queue that were called on and have yet to go on. -/
def Sys.called (s : Sys) : List Waiter := (woken s.microtasks).filter (·.queued)

/-- The global calls that are past the queue and wait for what blocks them. -/
def Sys.acquirers (s : Sys) : List Waiter :=
  s.pending.filter fun w => w.request.name = "" ∧ w.queued = false

/-- The calls that are past the queue. -/
def Sys.entered (s : Sys) : List Request :=
  s.granted ++ (s.pending.filter (!·.queued)).map (·.request)

/-- Those who were granted the lock and whose lease is to be returned. -/
def leased (microtasks : List Microtask) : List Request :=
  microtasks.filterMap fun
    | .lease request => some request
    | .resume _ | .other => none

/-- Those who have the global lock. -/
def Sys.owners (s : Sys) : List Request :=
  (s.returned ++ leased s.microtasks).filter (·.name = "")

/-- A named call ahead of a global one was made before it. -/
def Ahead (w w' : Waiter) : Prop :=
  w.request.name ≠ "" → w'.request.name = "" → w.request.call < w'.request.call

/-- A global lease is returned after the calls of the queue that are to go on. -/
def Follows (m m' : Microtask) : Prop :=
  ∀ r, m = .lease r → r.name = "" → ∀ w, m' = .resume w → w.queued = false

structure Inv (s : Sys) : Prop where
  distinct : s.lock.Distinct
  pending_lt : ∀ w ∈ s.pending, w.request.call < s.calls
  granted_lt : ∀ r ∈ s.granted, r.call < s.calls
  queue : ∀ w ∈ s.awaiting, ∀ d, w.awaits = .globalLockAcquiringLock d →
    s.lock.globalLockAcquiringLock = some d
  acquirer : s.acquirers ≠ [] → s.lock.globalLockAcquiringLock ≠ none
  oneAcquirer : s.acquirers.length ≤ 1
  past : ∀ r ∈ s.entered, r.name ≠ "" → ∀ w ∈ s.pending, w.request.name = "" →
    r.call < w.request.call
  line : (s.queue ++ s.called).Pairwise Ahead
  blocked : s.called ≠ [] → s.lock.globalLock ≠ none
  owner : s.owners ≠ [] → s.lock.globalLock ≠ none
  oneOwner : s.owners.length ≤ 1
  returned : ∀ r ∈ s.returned, r.name = "" → s.called = []
  lease : s.microtasks.Pairwise Follows

theorem inv_init : Inv {} := by
  constructor <;> simp [Lock.Distinct.empty, Sys.pending, Sys.acquirers, Sys.entered, Sys.queue,
    Sys.called, Sys.owners, woken, leased]

@[simp] theorem woken_append (ms ms' : List Microtask) :
    woken (ms ++ ms') = woken ms ++ woken ms' :=
  List.filterMap_append

@[simp] theorem woken_resume (ws : List Waiter) : woken (ws.map .resume) = ws := by
  rw [woken, List.filterMap_map]
  exact List.filterMap_some

@[simp] theorem leased_append (ms ms' : List Microtask) :
    leased (ms ++ ms') = leased ms ++ leased ms' :=
  List.filterMap_append

@[simp] theorem leased_resume (ws : List Waiter) : leased (ws.map .resume) = [] := by
  simp [leased, List.filterMap_map]

theorem mem_leased {ms : List Microtask} : r ∈ leased ms ↔ .lease r ∈ ms := by
  simp only [leased, List.mem_filterMap]
  constructor
  · rintro ⟨_ | r' | _, hm, hr⟩ <;> cases hr
    exact hm
  · exact fun hm => ⟨_, hm, rfl⟩

/-- Who waits for what has been resolved is to go on, and waits still. -/
theorem pending_wake (s : Sys) : (wake s).pending.Perm s.pending := by
  unfold Sys.pending wake
  simp only [woken_append, woken_resume]
  rw [← List.append_assoc]
  refine (List.perm_append_comm.append_right _).trans ?_
  rw [List.append_assoc]
  refine List.perm_append_comm.trans (List.Perm.append_right _ ?_)
  refine List.perm_append_comm.trans ?_
  exact List.filter_append_perm (s.lock.woken ·.awaits) s.awaiting

/-- What is said of all that wait is not changed by a wake-up. -/
theorem acquirers_wake (s : Sys) : (wake s).acquirers.Perm s.acquirers :=
  (pending_wake s).filter _

theorem entered_wake (s : Sys) : (wake s).entered.Perm s.entered :=
  (((pending_wake s).filter _).map _).append_left _

theorem owners_wake (s : Sys) : (wake s).owners = s.owners := by
  simp [Sys.owners, wake]

theorem called_wake (s : Sys) : (wake s).called
    = s.called ++ (s.awaiting.filter (s.lock.woken ·.awaits)).filter (·.queued) := by
  simp [Sys.called, wake]

/-- What a lock that has changed leaves to be shown of who it wakes. -/
theorem Inv.of_wake (hi : Inv s) (hd : l.Distinct)
    (hacquirer : s.acquirers ≠ [] → l.globalLockAcquiringLock ≠ none)
    (hqueue : ∀ w ∈ (wake { s with lock := l }).awaiting, ∀ d,
      w.awaits = .globalLockAcquiringLock d → l.globalLockAcquiringLock = some d)
    (hline : ((wake { s with lock := l }).queue ++ (wake { s with lock := l }).called).Pairwise
      Ahead)
    (hblocked : (wake { s with lock := l }).called ≠ [] ∨ s.owners ≠ [] → l.globalLock ≠ none)
    (hreturned : ∀ r ∈ s.returned, r.name = "" → (wake { s with lock := l }).called = [])
    (hlease : (wake { s with lock := l }).microtasks.Pairwise Follows) :
    Inv (wake { s with lock := l }) where
  distinct := hd
  pending_lt w hw := hi.pending_lt w ((pending_wake { s with lock := l }).mem_iff.1 hw)
  granted_lt := hi.granted_lt
  queue := hqueue
  acquirer hne := hacquirer fun hnil => hne
    (List.perm_nil.1 (hnil ▸ acquirers_wake { s with lock := l }))
  oneAcquirer := by
    rw [(acquirers_wake { s with lock := l }).length_eq]
    exact hi.oneAcquirer
  past r hr hname w hw := hi.past r ((entered_wake { s with lock := l }).mem_iff.1 hr) hname w
    ((pending_wake { s with lock := l }).mem_iff.1 hw)
  line := hline
  blocked hne := hblocked (.inl hne)
  owner hne := hblocked (.inr fun hnil => hne ((owners_wake _).trans hnil))
  oneOwner := by
    rw [owners_wake]
    exact hi.oneOwner
  returned := hreturned
  lease := hlease

theorem follows_resume (ws : List Waiter) : (ws.map Microtask.resume).Pairwise Follows :=
  List.pairwise_map.2 (List.pairwise_of_forall fun _ _ _ hm => by cases hm)

theorem called_wake_of_keep (hkeep : ∀ w ∈ s.awaiting, w.queued → s.lock.woken w.awaits = false) :
    (wake s).called = s.called := by
  rw [called_wake, List.filter_filter, List.filter_eq_nil_iff.2, List.append_nil]
  intro w hw hboth
  obtain ⟨hq, hwoken⟩ := Bool.and_eq_true_iff.1 hboth
  simp [hkeep w hw hq] at hwoken

theorem queue_wake_of_keep (hkeep : ∀ w ∈ s.awaiting, w.queued → s.lock.woken w.awaits = false) :
    (wake s).queue = s.queue := by
  show (s.awaiting.filter (!s.lock.woken ·.awaits)).filter (·.queued) = s.awaiting.filter (·.queued)
  rw [List.filter_filter]
  refine List.filter_congr fun w hw => ?_
  by_cases hq : w.queued = true <;> simp [hq, hkeep w hw]

/-- The lock changes, and no one in the queue is called on. -/
theorem Inv.wakeNone (hi : Inv s) (hd : l.Distinct)
    (hacquiring : ∀ d, s.lock.globalLockAcquiringLock = some d →
      l.globalLockAcquiringLock = some d)
    (hkeep : ∀ w ∈ s.awaiting, w.queued → l.woken w.awaits = false)
    (hglobal : s.called ≠ [] ∨ s.owners ≠ [] → l.globalLock ≠ none) :
    Inv (wake { s with lock := l }) := by
  have hcalled : (wake { s with lock := l }).called = s.called := called_wake_of_keep hkeep
  have hqueue : (wake { s with lock := l }).queue = s.queue := queue_wake_of_keep hkeep
  refine hi.of_wake hd (fun hne => ?_) (fun w hw d hdw => ?_) ?_ ?_ (fun r hr hname => ?_) ?_
  · obtain ⟨d, hd⟩ := Option.ne_none_iff_exists'.1 (hi.acquirer hne)
    simp [hacquiring d hd]
  · exact hacquiring d (hi.queue w (List.mem_filter.1 hw).1 d hdw)
  · rw [hqueue, hcalled]
    exact hi.line
  · rw [hcalled]
    exact hglobal
  · rw [hcalled]
    exact hi.returned r hr hname
  · refine List.pairwise_append.2 ⟨hi.lease, follows_resume _, fun m _ m' hm' r _ _ w hmw => ?_⟩
    obtain ⟨w', hw', rfl⟩ := List.mem_map.1 hm'
    obtain rfl := Microtask.resume.inj hmw
    obtain ⟨hw', hwoken⟩ := List.mem_filter.1 hw'
    by_contra hq
    simp [hkeep w' hw' (by simpa using hq)] at hwoken

/-- The global lock is taken, and the whole queue is called on. -/
theorem Inv.wakeAll (hi : Inv s) (hd : l.Distinct) (hacquirers : s.acquirers = [])
    (hcalled : s.called = []) (howners : s.owners = [])
    (hall : ∀ w ∈ s.awaiting, w.queued → l.woken w.awaits) (hglobal : l.globalLock ≠ none) :
    Inv (wake { s with lock := l }) := by
  have hqueue : (wake { s with lock := l }).queue = [] := by
    refine List.filter_eq_nil_iff.2 fun w hw hq => ?_
    obtain ⟨hw, hwoken⟩ := List.mem_filter.1 hw
    simp [hall w hw hq] at hwoken
  refine hi.of_wake hd (fun hne => absurd hacquirers hne) (fun w hw d hdw => ?_) ?_
    (fun _ => hglobal) (fun r hr hname => ?_) ?_
  · have hq : w.queued = true := by simp [Waiter.queued, hdw]
    have hmem := List.mem_filter.2 ⟨hw, hq⟩
    rw [show (wake { s with lock := l }).awaiting.filter (·.queued) = [] from hqueue] at hmem
    cases hmem
  · rw [hqueue, List.nil_append, called_wake]
    have hnil : ({ s with lock := l } : Sys).called = [] := hcalled
    rw [hnil, List.nil_append, List.filter_filter]
    refine List.Pairwise.sublist ?_ (List.pairwise_append.1 hi.line).1
    refine List.monotone_filter_right _ fun w hw => ?_
    exact (Bool.and_eq_true_iff.1 hw).1
  · have hmem : r ∈ s.owners := List.mem_filter.2
      ⟨List.mem_append_left _ hr, by simpa using hname⟩
    exact absurd hmem (howners ▸ List.not_mem_nil)
  · refine List.pairwise_append.2 ⟨hi.lease, follows_resume _, fun m hm m' _ r hmr hname _ _ => ?_⟩
    have hmem : r ∈ s.owners := List.mem_filter.2
      ⟨List.mem_append_right _ (mem_leased.2 (hmr ▸ hm)), by simpa using hname⟩
    exact absurd hmem (howners ▸ List.not_mem_nil)

theorem pending_await (s : Sys) (w : Waiter) :
    ({ s with awaiting := s.awaiting ++ [w] } : Sys).pending.Perm (w :: s.pending) := by
  unfold Sys.pending
  rw [List.append_assoc]
  exact List.perm_middle

theorem mem_pending_await {w w' : Waiter} :
    w' ∈ ({ s with awaiting := s.awaiting ++ [w] } : Sys).pending ↔ w' = w ∨ w' ∈ s.pending := by
  rw [(pending_await s w).mem_iff, List.mem_cons]

theorem mem_entered_await {w : Waiter} {r' : Request}
    (h : r' ∈ ({ s with awaiting := s.awaiting ++ [w] } : Sys).entered) :
    r' ∈ s.entered ∨ w.queued = false ∧ r' = w.request := by
  rcases List.mem_append.1 h with h | h
  · exact .inl (List.mem_append_left _ h)
  · obtain ⟨w', hw', rfl⟩ := List.mem_map.1 h
    obtain ⟨hw', hq⟩ := List.mem_filter.1 hw'
    rcases mem_pending_await.1 hw' with rfl | hw'
    · exact .inr ⟨by simpa using hq, rfl⟩
    · exact .inl (List.mem_append_right _ (List.mem_map_of_mem (List.mem_filter.2 ⟨hw', hq⟩)))

theorem acquirers_await (s : Sys) (w : Waiter) :
    ({ s with awaiting := s.awaiting ++ [w] } : Sys).acquirers.Perm
      (if w.request.name = "" ∧ w.queued = false then w :: s.acquirers else s.acquirers) := by
  refine ((pending_await s w).filter _).trans (List.Perm.of_eq ?_)
  unfold Sys.acquirers
  split_ifs with hw
  · rw [List.filter_cons_of_pos (by simpa using hw)]
  · rw [List.filter_cons_of_neg (by simpa using hw)]

/-- A call begins to wait. -/
theorem Inv.await (hi : Inv s) {w : Waiter} (hlt : w.request.call < s.calls)
    (hqueue : ∀ d, w.awaits = .globalLockAcquiringLock d →
      s.lock.globalLockAcquiringLock = some d)
    (hacquirer : w.request.name = "" → w.queued = false →
      s.acquirers = [] ∧ s.lock.globalLockAcquiringLock ≠ none)
    (hpast : w.request.name ≠ "" → w.queued = false →
      ∀ w' ∈ s.pending, w'.request.name = "" → w.request.call < w'.request.call)
    (hbehind : w.request.name = "" → ∀ r ∈ s.entered, r.name ≠ "" → r.call < w.request.call)
    (hline : w.queued → (s.queue ++ w :: s.called).Pairwise Ahead) :
    Inv { s with awaiting := s.awaiting ++ [w] } where
  distinct := hi.distinct
  pending_lt w' hw' := by
    rcases mem_pending_await.1 hw' with rfl | hw'
    · exact hlt
    · exact hi.pending_lt w' hw'
  granted_lt := hi.granted_lt
  queue w' hw' d hd := by
    rcases List.mem_append.1 hw' with hw' | hw'
    · exact hi.queue w' hw' d hd
    · exact hqueue d (List.mem_singleton.1 hw' ▸ hd)
  acquirer hne := by
    by_cases hw : w.request.name = "" ∧ w.queued = false
    · exact (hacquirer hw.1 hw.2).2
    · have hperm := acquirers_await s w
      rw [if_neg hw] at hperm
      exact hi.acquirer fun hnil => hne (List.perm_nil.1 (hnil ▸ hperm))
  oneAcquirer := by
    rw [(acquirers_await s w).length_eq]
    split_ifs with hw
    · rw [(hacquirer hw.1 hw.2).1]
      exact Nat.le_refl _
    · exact hi.oneAcquirer
  past r hr hname w' hw' hname' := by
    rcases mem_entered_await hr with hold | ⟨hq, rfl⟩
    · rcases mem_pending_await.1 hw' with rfl | hw'
      · exact hbehind hname' r hold hname
      · exact hi.past r hold hname w' hw' hname'
    · rcases mem_pending_await.1 hw' with rfl | hw'
      · exact absurd hname' hname
      · exact hpast hname hq w' hw' hname'
  line := by
    show ((s.awaiting ++ [w]).filter (·.queued) ++ s.called).Pairwise Ahead
    rw [List.filter_append]
    by_cases hq : w.queued = true
    · rw [List.filter_cons_of_pos hq, List.filter_nil, List.append_assoc]
      exact hline hq
    · rw [List.filter_cons_of_neg hq, List.filter_nil, List.append_nil]
      exact hi.line
  blocked := hi.blocked
  owner := hi.owner
  oneOwner := hi.oneOwner
  returned := hi.returned
  lease := hi.lease

/-- A call is granted the lock. -/
theorem Inv.grant (hi : Inv s) (hlt : r.call < s.calls)
    (hpast : r.name ≠ "" → ∀ w ∈ s.pending, w.request.name = "" → r.call < w.request.call)
    (howner : r.name = "" → s.owners = [] ∧ s.lock.globalLock ≠ none) :
    Inv { s with microtasks := s.microtasks ++ [.lease r], granted := s.granted ++ [r] } := by
  let t : Sys := { s with microtasks := s.microtasks ++ [.lease r], granted := s.granted ++ [r] }
  have hwoken : woken t.microtasks = woken s.microtasks := by simp [t, woken]
  have hpending : t.pending = s.pending := by
    unfold Sys.pending
    rw [hwoken]
  have hcalled : t.called = s.called := by
    unfold Sys.called
    rw [hwoken]
  have howners : t.owners = if r.name = "" then s.owners ++ [r] else s.owners := by
    unfold Sys.owners
    split_ifs with hname <;> simp [t, leased, hname]
  have hentered : ∀ r' ∈ t.entered, r' ∈ s.entered ∨ r' = r := fun r' hr' => by
    rcases List.mem_append.1 hr' with hr' | hr'
    · rcases List.mem_append.1 hr' with hr' | hr'
      · exact .inl (List.mem_append_left _ hr')
      · exact .inr (List.mem_singleton.1 hr')
    · rw [hpending] at hr'
      exact .inl (List.mem_append_right _ hr')
  refine ⟨hi.distinct, ?_, fun r' hr' => ?_, hi.queue, ?_, ?_, fun r' hr' hname w hw hname' => ?_,
    ?_, ?_, ?_, ?_, ?_, ?_⟩
  · rw [hpending]
    exact hi.pending_lt
  · rcases List.mem_append.1 hr' with hr' | hr'
    · exact hi.granted_lt r' hr'
    · exact List.mem_singleton.1 hr' ▸ hlt
  · show t.acquirers ≠ [] → _
    unfold Sys.acquirers
    rw [hpending]
    exact hi.acquirer
  · show t.acquirers.length ≤ 1
    unfold Sys.acquirers
    rw [hpending]
    exact hi.oneAcquirer
  · rw [hpending] at hw
    rcases hentered r' hr' with hr' | rfl
    · exact hi.past r' hr' hname w hw hname'
    · exact hpast hname w hw hname'
  · rw [hcalled]
    exact hi.line
  · rw [hcalled]
    exact hi.blocked
  · rw [howners]
    split_ifs with hname
    · exact fun _ => (howner hname).2
    · exact hi.owner
  · rw [howners]
    split_ifs with hname
    · rw [(howner hname).1]
      exact Nat.le_refl _
    · exact hi.oneOwner
  · rw [hcalled]
    exact hi.returned
  · refine List.pairwise_append.2 ⟨hi.lease, List.pairwise_singleton _ _, ?_⟩
    intro m _ m' hm' _ _ _ w hw
    rw [List.mem_singleton.1 hm'] at hw
    cases hw

/-- The lock says who of the queue is called on. -/
theorem Inv.keep (hi : Inv s) (hr : l.resolved = s.lock.resolved) :
    ∀ w ∈ s.awaiting, w.queued → l.woken w.awaits = false := by
  intro w hw hq
  rcases ha : w.awaits with d | d | _
  · have hnot := (hi.distinct.acquiring d (hi.queue w hw d ha)).2.1
    simpa [Lock.woken, hr] using hnot
  all_goals simp [Waiter.queued, ha] at hq

/-- The call may go past the queue. -/
structure Enters (s : Sys) (r : Request) : Prop where
  lt : r.call < s.calls
  named : r.name ≠ "" → ∀ w ∈ s.pending, w.request.name = "" → r.call < w.request.call
  behind : r.name = "" → ∀ r' ∈ s.entered, r'.name ≠ "" → r'.call < r.call
  first : r.name = "" → s.acquirers = []

/-- A call in the queue waits for another that has begun to acquire the lock. -/
theorem Inv.settle_queue (hi : Inv s) {d : ℕ} (hd : s.lock.globalLockAcquiringLock = some d)
    (hlt : r.call < s.calls)
    (hbehind : r.name = "" → ∀ r' ∈ s.entered, r'.name ≠ "" → r'.call < r.call)
    (hline : (s.queue ++ ⟨r, .globalLockAcquiringLock d⟩ :: s.called).Pairwise Ahead) :
    Inv (settle s r (s.lock, .globalLockAcquiringLock d)) := by
  have hkeep := hi.keep (l := s.lock) rfl
  have hwake : Inv (wake s) := hi.wakeNone hi.distinct (fun _ => id) hkeep
    fun h => h.elim hi.blocked hi.owner
  refine hwake.await (w := ⟨r, .globalLockAcquiringLock d⟩) hlt (fun d' hd' => ?_)
    (fun _ hq => by cases hq) (fun _ hq => by cases hq)
    (fun hname r' hr' => hbehind hname r' ((entered_wake s).mem_iff.1 hr')) fun _ => ?_
  · exact Acquiring.globalLockAcquiringLock.inj hd' ▸ hd
  · rw [queue_wake_of_keep hkeep, called_wake_of_keep hkeep]
    exact hline

/-- A call past the queue waits for what blocks it, or is granted the lock. -/
theorem Inv.settle_enters (hi : Inv s) (he : Enters s r) (hd : l.Distinct)
    (hacquiring : ∀ d, s.lock.globalLockAcquiringLock = some d →
      l.globalLockAcquiringLock = some d)
    (hbegun : r.name = "" → l.globalLockAcquiringLock ≠ none)
    (hresolved : l.resolved = s.lock.resolved) (hglobal : l.globalLock = s.lock.globalLock) :
    Inv (settle s r (l.acquireBlocked r.name)) := by
  have hglobal' : s.called ≠ [] ∨ s.owners ≠ [] → l.globalLock ≠ none := fun h => by
    rw [hglobal]
    exact h.elim hi.blocked hi.owner
  rcases hl : l.acquireBlocked r.name with ⟨l', awaits⟩
  rcases Lock.acquireBlocked_cases hl with ⟨d, rfl, rfl⟩ | ⟨hfree, rfl, rfl⟩
  · have hwake := hi.wakeNone hd hacquiring (hi.keep hresolved) hglobal'
    refine hwake.await (w := ⟨r, .blockingLock d⟩) he.lt (fun _ h => by cases h)
      (fun hname _ => ⟨?_, hbegun hname⟩) (fun hname _ w hw => ?_) (fun hname r' hr' => ?_)
      fun hq => by cases hq
    · exact List.perm_nil.1 ((acquirers_wake _).trans (List.Perm.of_eq (he.first hname)))
    · exact he.named hname w ((pending_wake { s with lock := l' }).mem_iff.1 hw)
    · exact he.behind hname r' ((entered_wake { s with lock := l' }).mem_iff.1 hr')
  · by_cases hname : r.name = ""
    · have hcalled : s.called = [] := by
        by_contra hne
        exact hglobal' (.inl hne) hfree
      have howners : s.owners = [] := by
        by_contra hne
        exact hglobal' (.inr hne) hfree
      have htake : (l.take r.name).globalLock ≠ none := by simp [Lock.take, hname]
      have hall : ∀ w ∈ s.awaiting, w.queued → (l.take r.name).woken w.awaits := fun w hw hq => by
        rcases ha : w.awaits with d | d | _
        · have hd' := hacquiring d (hi.queue w hw d ha)
          simp [Lock.woken, Lock.take, hname, hd']
        all_goals simp [Waiter.queued, ha] at hq
      have hwake := hi.wakeAll (hd.take r.name) (he.first hname) hcalled howners hall htake
      refine hwake.grant he.lt (fun hne => absurd hname hne) fun _ => ⟨?_, htake⟩
      rw [owners_wake]
      exact howners
    · have hsame : (l.take r.name).globalLock = l.globalLock := by simp [Lock.take, hname]
      have hwake := hi.wakeNone (hd.take r.name) (fun d hd' => by
          simpa [Lock.take, hname] using hacquiring d hd')
        (hi.keep (by simpa [Lock.take, hname] using hresolved)) (hsame ▸ hglobal')
      refine hwake.grant he.lt (fun _ w hw => ?_) fun hno => absurd hno hname
      exact he.named hname w ((pending_wake { s with lock := l.take r.name }).mem_iff.1 hw)

/-! ## Steps -/

variable {s' : Sys} {ms : List Microtask} {m : Microtask}

/-- Microtasks are taken out, or a lease is released. -/
theorem Inv.sublist (hi : Inv s) {returned : List Request} (hm : ms.Sublist s.microtasks)
    (hr : returned.Sublist s.returned) : Inv { s with microtasks := ms, returned } := by
  have hwoken : (woken ms).Sublist (woken s.microtasks) := hm.filterMap _
  have hpending : (s.awaiting ++ woken ms).Sublist s.pending := hwoken.append_left _
  have hcalled : ((woken ms).filter (·.queued)).Sublist s.called := hwoken.filter _
  have hacquirers : ({ s with microtasks := ms, returned } : Sys).acquirers.Sublist s.acquirers :=
    hpending.filter _
  have howners : ({ s with microtasks := ms, returned } : Sys).owners.Sublist s.owners :=
    (hr.append (hm.filterMap _)).filter _
  have hentered : ({ s with microtasks := ms, returned } : Sys).entered.Sublist s.entered :=
    ((hpending.filter _).map _).append_left _
  exact {
    distinct := hi.distinct
    pending_lt := fun w hw => hi.pending_lt w (hpending.subset hw)
    granted_lt := hi.granted_lt
    queue := hi.queue
    acquirer := fun hne => hi.acquirer fun hnil => hne (List.sublist_nil.1 (hnil ▸ hacquirers))
    oneAcquirer := Nat.le_trans hacquirers.length_le hi.oneAcquirer
    past := fun r hr hname w hw => hi.past r (hentered.subset hr) hname w (hpending.subset hw)
    line := hi.line.sublist (hcalled.append_left _)
    blocked := fun hne => hi.blocked fun hnil => hne (List.sublist_nil.1 (hnil ▸ hcalled))
    owner := fun hne => hi.owner fun hnil => hne (List.sublist_nil.1 (hnil ▸ howners))
    oneOwner := Nat.le_trans howners.length_le hi.oneOwner
    returned := fun r hr' hname =>
      List.sublist_nil.1 (hi.returned r (hr.subset hr') hname ▸ hcalled)
    lease := hi.lease.sublist hm }

/-- A lease is returned. Nobody who was called on is to go on then, if it is global. -/
theorem Inv.lease_returns (hi : Inv s) (hm : s.microtasks = .lease r :: ms) :
    Inv { s with microtasks := ms, returned := s.returned ++ [r] } := by
  have hsub : ms.Sublist s.microtasks := hm ▸ List.sublist_cons_self ..
  have hold := hi.sublist hsub (List.Sublist.refl s.returned)
  have howners : ({ s with microtasks := ms, returned := s.returned ++ [r] } : Sys).owners
      = s.owners := by
    unfold Sys.owners
    rw [hm, List.append_assoc]
    rfl
  refine ⟨hold.distinct, hold.pending_lt, hold.granted_lt, hold.queue, hold.acquirer,
    hold.oneAcquirer, hold.past, hold.line, hold.blocked, ?_, ?_, fun r' hr' hname => ?_,
    hold.lease⟩
  · rw [howners]
    exact hi.owner
  · rw [howners]
    exact hi.oneOwner
  · rcases List.mem_append.1 hr' with hr' | hr'
    · exact hold.returned r' hr' hname
    · obtain rfl := List.mem_singleton.1 hr'
      refine List.filter_eq_nil_iff.2 fun w hw => ?_
      have hlease := hi.lease
      rw [hm] at hlease
      obtain ⟨m', hm', hw⟩ := List.mem_filterMap.1 hw
      rcases m' with w' | _ | _ <;> cases hw
      simp [(List.pairwise_cons.1 hlease).1 _ hm' r' rfl hname w rfl]

/-- A named call is not made while a global one that was in the queue is called on and has yet to go
on. -/
def Orderly (s : Sys) : Action → Prop
  | .acquire name => name ≠ "" → ∀ w ∈ s.called, w.request.name ≠ ""
  | .release _ | .queueMicrotask | .microtask => True

/-- With nobody acquiring the global lock, the queue is empty and no global call is past it. -/
theorem Inv.idle (hi : Inv s) (hnone : s.lock.globalLockAcquiringLock = none) :
    s.queue = [] ∧ s.acquirers = [] := by
  constructor
  · refine List.filter_eq_nil_iff.2 fun w hw hq => ?_
    rcases ha : w.awaits with d | d | _
    · have hd := hi.queue w hw d ha
      rw [hnone] at hd
      cases hd
    all_goals simp [Waiter.queued, ha] at hq
  · by_contra hne
    exact hi.acquirer hne hnone

/-- With nobody acquiring the global lock, the global calls that wait were called on. -/
theorem Inv.mem_called (hi : Inv s) (hnone : s.lock.globalLockAcquiringLock = none) {w : Waiter}
    (hw : w ∈ s.pending) (hname : w.request.name = "") : w ∈ s.called := by
  obtain ⟨hqueue, hacquirers⟩ := hi.idle hnone
  by_cases hq : w.queued = true
  · rcases List.mem_append.1 hw with hw | hw
    · have hmem : w ∈ s.queue := List.mem_filter.2 ⟨hw, hq⟩
      rw [hqueue] at hmem
      cases hmem
    · exact List.mem_filter.2 ⟨hw, hq⟩
  · have hmem : w ∈ s.acquirers := List.mem_filter.2 ⟨hw, by simpa [hname] using hq⟩
    rw [hacquirers] at hmem
    cases hmem

/-- A call queues, or goes past an empty queue. -/
theorem Inv.settle_acquire (hi : Inv s) (hlt : r.call < s.calls)
    (hbehind : r.name = "" → ∀ r' ∈ s.entered, r'.name ≠ "" → r'.call < r.call)
    (hnamed : r.name ≠ "" → s.lock.globalLockAcquiringLock = none →
      ∀ w ∈ s.called, w.request.name = "" → r.call < w.request.call)
    (hline : ∀ d, (s.queue ++ ⟨r, .globalLockAcquiringLock d⟩ :: s.called).Pairwise Ahead) :
    Inv (settle s r (s.lock.acquire r.name)) := by
  rcases hacq : s.lock.globalLockAcquiringLock with _ | d
  · have he : Enters s r := ⟨hlt, fun hname w hw hname' =>
      hnamed hname hacq w (hi.mem_called hacq hw hname') hname', hbehind,
      fun _ => (hi.idle hacq).2⟩
    unfold Lock.acquire
    rw [hacq]
    dsimp only
    split_ifs with hname
    · exact hi.settle_enters he hi.distinct.begin (by simp [hacq]) (by simp) rfl rfl
    · exact hi.settle_enters he hi.distinct (fun _ => id) (fun h => absurd h hname) rfl rfl
  · unfold Lock.acquire
    rw [hacq]
    exact hi.settle_queue hacq hlt hbehind (hline d)

theorem Inv.calls (hi : Inv s) : Inv { s with calls := s.calls + 1 } :=
  { hi with
    pending_lt := fun w hw => Nat.lt_succ_of_lt (hi.pending_lt w hw)
    granted_lt := fun r hr => Nat.lt_succ_of_lt (hi.granted_lt r hr) }

theorem Inv.entered_lt (hi : Inv s) : ∀ r ∈ s.entered, r.call < s.calls := by
  intro r hr
  rcases List.mem_append.1 hr with hr | hr
  · exact hi.granted_lt r hr
  · obtain ⟨w, hw, rfl⟩ := List.mem_map.1 hr
    exact hi.pending_lt w (List.mem_filter.1 hw).1

/-- A new call is behind those in the queue and, if it is named, behind no global one that was
called on. -/
theorem Inv.acquire (hi : Inv s) {name : String} (hC : Orderly s (.acquire name)) :
    Inv (settle { s with calls := s.calls + 1 } ⟨s.calls, name⟩ (s.lock.acquire name)) := by
  refine hi.calls.settle_acquire (Nat.lt_succ_self _) (fun _ r hr _ => hi.entered_lt r hr)
    (fun hname _ w hw hname' => absurd hname' (hC hname w hw)) fun d => ?_
  obtain ⟨hqueue, hcalled, hahead⟩ := List.pairwise_append.1 hi.line
  refine List.pairwise_append.2 ⟨hqueue, List.pairwise_cons.2 ⟨fun w hw hname hname' => ?_,
    hcalled⟩, fun w hw w' hw' => ?_⟩
  · exact absurd hname' (hC hname w hw)
  · rcases List.mem_cons.1 hw' with rfl | hw'
    · exact fun _ _ => hi.pending_lt w (List.mem_append_left _ (List.mem_filter.1 hw).1)
    · exact hahead w hw w' hw'

theorem Inv.release (hi : Inv s) (hr : r ∈ s.returned) :
    Inv (wake { s with
      lock := s.lock.release r.name
      returned := s.returned.erase r }) := by
  have hold := hi.sublist (List.Sublist.refl s.microtasks) (List.erase_sublist (a := r))
  refine hold.wakeNone (hi.distinct.release r.name) (fun d hd => ?_) (fun w hw hq => ?_) ?_
  · rw [Lock.release_globalLockAcquiringLock]
    exact hd
  · rcases ha : w.awaits with d | d | _
    · obtain ⟨-, hnot, hblocks⟩ := hi.distinct.acquiring d (hi.queue w hw d ha)
      have hno : d ∉ (s.lock.release r.name).resolved := fun hd =>
        (Lock.mem_resolved_of_release hd).elim hblocks hnot
      simpa [Lock.woken] using hno
    all_goals simp [Waiter.queued, ha] at hq
  · by_cases hname : r.name = ""
    · -- the one owner of the global lock, whose lease was returned
      have hperm : s.owners.Perm
          (r :: ({ s with returned := s.returned.erase r } : Sys).owners) := by
        refine (((List.perm_cons_erase hr).append_right _).filter _).trans (List.Perm.of_eq ?_)
        exact List.filter_cons_of_pos (by simpa using hname)
      have hone := hi.oneOwner
      rw [hperm.length_eq, List.length_cons] at hone
      have hnil : ({ s with returned := s.returned.erase r } : Sys).owners = [] :=
        List.eq_nil_of_length_eq_zero (by omega)
      rintro (hne | hne)
      · exact absurd (hi.returned r hr hname) hne
      · exact absurd hnil hne
    · intro h
      have hsame : (s.lock.release r.name).globalLock = s.lock.globalLock := by
        simp [Lock.release, hname]
      rw [hsame]
      exact h.elim hold.blocked hold.owner

/-- A call goes on, in the queue or past it. -/
theorem Inv.resume (hi : Inv s) {awaits : Acquiring}
    (hm : s.microtasks = .resume ⟨r, awaits⟩ :: ms) {result : Lock × Acquiring}
    (hr : s.lock.resume r.name awaits = some result) :
    Inv (settle { s with microtasks := ms } r result) := by
  have hsub : ms.Sublist s.microtasks := hm ▸ List.sublist_cons_self ..
  have hold := hi.sublist hsub (List.Sublist.refl s.returned)
  have hwoken : woken s.microtasks = ⟨r, awaits⟩ :: woken ms := by rw [hm]; rfl
  have hmem : ⟨r, awaits⟩ ∈ s.pending :=
    List.mem_append_right _ (hwoken ▸ List.mem_cons_self ..)
  have hpending : (s.awaiting ++ woken ms).Sublist s.pending :=
    (hwoken ▸ List.sublist_cons_self ..).append_left _
  have hentered : ∀ r' ∈ ({ s with microtasks := ms } : Sys).entered, r' ∈ s.entered :=
    (((hpending.filter _).map _).append_left _).subset
  have hbehind : r.name = "" → ∀ r' ∈ ({ s with microtasks := ms } : Sys).entered, r'.name ≠ "" →
      r'.call < r.call :=
    fun hname r' hr' hname' => hi.past r' (hentered r' hr') hname' _ hmem hname
  cases awaits with
  | acquired => cases hr
  | globalLockAcquiringLock d =>
    simp only [Lock.resume] at hr
    split_ifs at hr
    obtain rfl := Option.some.inj hr
    have hcalled : s.called
        = ⟨r, .globalLockAcquiringLock d⟩ :: ({ s with microtasks := ms } : Sys).called := by
      unfold Sys.called
      rw [hwoken]
      rfl
    have hline := hi.line
    rw [hcalled] at hline
    refine hold.settle_acquire (hi.pending_lt _ hmem) hbehind (fun hname _ w hw hname' => ?_)
      fun d' => ?_
    · exact (List.pairwise_cons.1 (List.pairwise_append.1 hline).2.1).1 w hw hname hname'
    · -- it is the call that counts, not whom it waits for
      obtain ⟨hqueue, hpast, hahead⟩ := List.pairwise_append.1 hline
      obtain ⟨hfirst, hpast⟩ := List.pairwise_cons.1 hpast
      refine List.pairwise_append.2 ⟨hqueue, List.pairwise_cons.2 ⟨fun w hw => hfirst w hw, hpast⟩,
        fun w hw w' hw' => ?_⟩
      rcases List.mem_cons.1 hw' with rfl | hw'
      · exact hahead w hw ⟨r, .globalLockAcquiringLock d⟩ (List.mem_cons_self ..)
      · exact hahead w hw w' (List.mem_cons_of_mem _ hw')
  | blockingLock d =>
    simp only [Lock.resume] at hr
    split_ifs at hr
    obtain rfl := Option.some.inj hr
    have hacquirers : r.name = "" → s.acquirers.Perm
        (⟨r, .blockingLock d⟩ :: ({ s with microtasks := ms } : Sys).acquirers) := fun hname => by
      unfold Sys.acquirers Sys.pending
      rw [hwoken]
      refine (List.perm_middle.filter _).trans (List.Perm.of_eq ?_)
      exact List.filter_cons_of_pos (by simp [Waiter.queued, hname])
    refine hold.settle_enters ⟨hi.pending_lt _ hmem, fun hname w hw hname' => ?_, hbehind,
      fun hname => ?_⟩ hi.distinct (fun _ => id) (fun hname => ?_) rfl rfl
    · refine hi.past r ?_ hname w (hpending.subset hw) hname'
      exact List.mem_append_right _ (List.mem_map.2 ⟨_, List.mem_filter.2 ⟨hmem, rfl⟩, rfl⟩)
    · have hone := hi.oneAcquirer
      rw [(hacquirers hname).length_eq, List.length_cons] at hone
      exact List.eq_nil_of_length_eq_zero (by omega)
    · refine hi.acquirer fun hnil => ?_
      have hperm := hacquirers hname
      rw [hnil] at hperm
      cases List.nil_perm.1 hperm

theorem Inv.queueMicrotask (hi : Inv s) :
    Inv { s with microtasks := s.microtasks ++ [.other] } := by
  let t : Sys := { s with microtasks := s.microtasks ++ [.other] }
  have hwoken : woken t.microtasks = woken s.microtasks := by simp [t, woken]
  have hleased : leased t.microtasks = leased s.microtasks := by simp [t, leased]
  have hpending : t.pending = s.pending := by unfold Sys.pending; rw [hwoken]
  have hcalled : t.called = s.called := by unfold Sys.called; rw [hwoken]
  have hacquirers : t.acquirers = s.acquirers := by unfold Sys.acquirers; rw [hpending]
  have hentered : t.entered = s.entered := by unfold Sys.entered; rw [hpending]
  have howners : t.owners = s.owners := by unfold Sys.owners; rw [hleased]
  refine ⟨hi.distinct, hpending ▸ hi.pending_lt, hi.granted_lt, hi.queue, hacquirers ▸ hi.acquirer,
    hacquirers ▸ hi.oneAcquirer, ?_, ?_, hcalled ▸ hi.blocked, howners ▸ hi.owner,
    howners ▸ hi.oneOwner, hcalled ▸ hi.returned, ?_⟩
  · rw [hentered, hpending]
    exact hi.past
  · rw [hcalled]
    exact hi.line
  · refine List.pairwise_append.2 ⟨hi.lease, List.pairwise_singleton _ _, ?_⟩
    intro m _ m' hm' _ _ _ w hw
    rw [List.mem_singleton.1 hm'] at hw
    cases hw

theorem inv_step {a : Action} (hi : Inv s) (hC : Orderly s a) (hst : step s a = some s') :
    Inv s' := by
  cases a with
  | acquire name =>
    obtain rfl := Option.some.inj hst
    exact hi.acquire hC
  | release r =>
    simp only [step] at hst
    split_ifs at hst with hr
    obtain rfl := Option.some.inj hst
    exact hi.release hr
  | queueMicrotask =>
    obtain rfl := Option.some.inj hst
    exact hi.queueMicrotask
  | microtask =>
    unfold step at hst
    rcases hm : s.microtasks with _ | ⟨⟨r, awaits⟩ | r | _, ms⟩ <;> rw [hm] at hst
    · cases hst
    · obtain ⟨result, hr, rfl⟩ := Option.map_eq_some_iff.1 hst
      exact hi.resume hm hr
    · obtain rfl := Option.some.inj hst
      exact hi.lease_returns hm
    · obtain rfl := Option.some.inj hst
      exact hi.sublist (hm ▸ List.sublist_cons_self ..) (List.Sublist.refl _)

/-- As long as no named call is made while a global one, called on when another has acquired the
lock, has yet to go on: a named call that is granted the lock was made before every global call that
is still to be granted it. -/
theorem global_first (h : machine.ReachIf Orderly s) :
    ∀ r ∈ s.granted, r.name ≠ "" → ∀ w ∈ s.pending, w.request.name = "" →
      r.call < w.request.call := by
  have hi : Inv s := h.invariant (fun s (h0 : s = {}) => h0 ▸ inv_init)
    fun _ _ _ hi hC hst => inv_step hi hC hst
  exact fun r hr => hi.past r (List.mem_append_left _ hr)

section Runs

instance (s : Sys) : ∀ a, Decidable (Orderly s a)
  | .acquire _ => inferInstanceAs (Decidable (_ → _))
  | .release _ | .queueMicrotask | .microtask => inferInstanceAs (Decidable True)

/-- A named call comes after a global one that waits for another, and waits too. -/
theorem global_first_queued : ∃ s, machine.run {} [.acquire "a", .acquire "", .acquire "n",
      .microtask, .release ⟨0, "a"⟩, .microtask] = some s
    ∧ s.granted = [⟨0, "a"⟩, ⟨1, ""⟩]
    ∧ ∀ r ∈ s.granted, r.name ≠ "" → ∀ w ∈ s.pending, w.request.name = "" →
      r.call < w.request.call := by
  have hrun : machine.run {} [.acquire "a", .acquire "", .acquire "n", .microtask,
    .release ⟨0, "a"⟩, .microtask] = some _ := rfl
  exact ⟨_, hrun, rfl, global_first ((Machine.ReachIf.init rfl).run (by decide) hrun)⟩

/-- The second of two global calls is called on when the first has acquired the lock. A microtask
queued before it calls `acquire` with a name, which goes past the queue and waits for the first, as
the second does after it. -/
theorem not_global_first : ¬ ∀ s, machine.Reach s → ∀ r ∈ s.granted, r.name ≠ "" →
    ∀ w ∈ s.pending, w.request.name = "" → r.call < w.request.call := by
  intro h
  have hrun : machine.run {} [.acquire "a", .microtask, .acquire "", .acquire "",
    .release ⟨0, "a"⟩, .queueMicrotask, .microtask, .microtask, .acquire "n", .microtask,
    .microtask, .release ⟨1, ""⟩, .microtask] = some _ := rfl
  have hlt := h _ (Machine.reach_of_run rfl hrun) ⟨3, "n"⟩ (by decide) (by decide)
    ⟨⟨2, ""⟩, .blockingLock 2⟩ (by decide) rfl
  exact absurd hlt (by decide)

end Runs

end LockMicrotasks

end NodeCqrs
