import Mathlib.Data.List.Basic
import Mathlib.Tactic.Common
import NodeCqrs.Utils.Lock

/-!
# Turns of a lock that is only acquired globally

The lock is granted to the call that is blocked by the one that has it, then to those that wait for
it to have acquired the lock, then to those that have been called on and did not go on yet
(`inTurn`). A call made while there are none of the last is last in turn, and the calls that go on
keep their turns, where those that are called go on in the order they wait in.
-/

namespace NodeCqrs

/-- What is found first is what `eraseP` takes out. -/
theorem find?_eraseP {α : Type*} {p : α → Bool} {l : List α} {x : α} (h : l.find? p = some x) :
    ∃ pre post, l = pre ++ x :: post ∧ l.eraseP p = pre ++ post ∧ p x = true
      ∧ ∀ y ∈ pre, p y = false := by
  obtain ⟨hx, pre, post, rfl, hpre⟩ := List.find?_eq_some_iff_append.1 h
  have hno : ∀ y ∈ pre, p y = false := fun y hy => by simpa using hpre y hy
  refine ⟨pre, post, rfl, ?_, hx, hno⟩
  rw [List.eraseP_append_right _ fun y hy => by simp [hno y hy], List.eraseP_cons_of_pos hx]

namespace Lock

theorem acquire_queue {l : Lock} {d : ℕ} (h : l.globalLockAcquiringLock = some d) :
    l.acquire "" = (l, .globalLockAcquiringLock d) := by
  unfold acquire
  rw [h]

theorem acquire_block {l : Lock} {d : ℕ} (ha : l.globalLockAcquiringLock = none)
    (hg : l.globalLock = some d) :
    l.acquire "" = ({ l with
      nextDeferred := l.nextDeferred + 1
      globalLockAcquiringLock := some l.nextDeferred }, .blockingLock d) := by
  unfold acquire
  simp [ha, acquireBlocked, getAnyBlockingLock, hg]

theorem acquireBlocked_take {l : Lock} (hn : l.namedLocks = []) (hg : l.globalLock = none) :
    l.acquireBlocked "" = (l.take "", .acquired) := by
  simp [acquireBlocked, getAnyBlockingLock, hg, hn]

theorem acquire_take {l : Lock} (hn : l.namedLocks = []) (ha : l.globalLockAcquiringLock = none)
    (hg : l.globalLock = none) :
    l.acquire "" = ({ l with
      nextDeferred := l.nextDeferred + 1
      globalLockAcquiringLock := some l.nextDeferred }.take "", .acquired) := by
  unfold acquire
  rw [ha]
  exact acquireBlocked_take hn hg

/-- The deferreds of a lock that is only acquired globally. -/
structure Fresh (l : Lock) : Prop where
  named : l.namedLocks = []
  resolved : ∀ d ∈ l.resolved, d < l.nextDeferred
  acquiring : ∀ d, l.globalLockAcquiringLock = some d →
    d < l.nextDeferred ∧ d ∉ l.resolved ∧ l.globalLock ≠ some d
  global : ∀ d, l.globalLock = some d → d < l.nextDeferred ∧ d ∉ l.resolved

/-- A call begins to acquire the lock. -/
theorem Fresh.begin {l : Lock} (h : l.Fresh) :
    Fresh { l with
      nextDeferred := l.nextDeferred + 1
      globalLockAcquiringLock := some l.nextDeferred } := by
  refine ⟨h.named, fun d hd => Nat.lt_succ_of_lt (h.resolved d hd), fun d hd => ?_, fun d hd => ?_⟩
  · obtain rfl := Option.some.inj hd
    refine ⟨Nat.lt_succ_self _, fun hr => Nat.lt_irrefl _ (h.resolved _ hr), fun hg => ?_⟩
    exact Nat.lt_irrefl _ (h.global _ hg).1
  · exact ⟨Nat.lt_succ_of_lt (h.global d hd).1, (h.global d hd).2⟩

theorem Fresh.take {l : Lock} (h : l.Fresh) : (l.take "").Fresh := by
  have hlt : ∀ d ∈ l.globalLockAcquiringLock.toList ++ l.resolved, d < l.nextDeferred := by
    intro d hd
    rcases List.mem_append.1 hd with hd | hd
    · exact (h.acquiring d (Option.mem_toList.1 hd)).1
    · exact h.resolved d hd
  refine ⟨h.named, fun d hd => Nat.lt_succ_of_lt (hlt d hd), fun d hd => ?_, fun d hd => ?_⟩
  · cases hd
  · obtain rfl := Option.some.inj hd
    exact ⟨Nat.lt_succ_self _, fun hr => Nat.lt_irrefl _ (hlt _ hr)⟩

theorem Fresh.release {l : Lock} (h : l.Fresh) : (l.release "").Fresh := by
  refine ⟨h.named, fun d hd => ?_, fun d hd => ?_, fun d hd => by cases hd⟩
  · rcases List.mem_append.1 hd with hd | hd
    · exact (h.global d (Option.mem_toList.1 hd)).1
    · exact h.resolved d hd
  · obtain ⟨hlt, hr, hg⟩ := h.acquiring d hd
    refine ⟨hlt, fun hd' => ?_, fun hg' => by cases hg'⟩
    rcases List.mem_append.1 hd' with hd' | hd'
    · exact hg (Option.mem_toList.1 hd')
    · exact hr hd'

/-- What a waiting call may await. -/
def Queues (l : Lock) : Acquiring → Prop
  | .globalLockAcquiringLock d => l.globalLockAcquiringLock = some d ∨ d ∈ l.resolved
  | .blockingLock d => l.globalLock = some d ∨ d ∈ l.resolved ∧ l.globalLock = none
  | .acquired => False

/-- The call acquires the lock, blocked by the one that has it. -/
def blocked : Acquiring → Bool
  | .blockingLock _ => true
  | _ => false

def queued (l : Lock) : Acquiring → Bool
  | .globalLockAcquiringLock deferred => deferred ∉ l.resolved
  | _ => false

/-- The call may go on to acquire the lock, and has not yet. -/
def called (l : Lock) : Acquiring → Bool
  | .globalLockAcquiringLock deferred => deferred ∈ l.resolved
  | _ => false

section inTurn

variable {R : Type*}

/-- Who waits, in the order the lock is granted. -/
def inTurn (l : Lock) (waiting : List (R × Acquiring)) : List R :=
  (waiting.filter (blocked ·.2) ++ waiting.filter (l.queued ·.2)
    ++ waiting.filter (l.called ·.2)).map (·.1)

/-- What waits awaits what the lock has or what is resolved; one call at most acquires the lock, and
the others are not called on before it has. -/
structure Queued (l : Lock) (waiting : List (R × Acquiring)) : Prop where
  fresh : l.Fresh
  waits : ∀ w ∈ waiting, l.Queues w.2
  one : (waiting.filter (blocked ·.2)).length ≤ 1
  free : l.globalLockAcquiringLock = none → waiting.filter (blocked ·.2) = []
  calm : ∀ w ∈ waiting, blocked w.2 = true → l.woken w.2 = true →
    waiting.filter (l.called ·.2) = []

variable {l : Lock} {waiting : List (R × Acquiring)}

theorem blocked_of_called (hw : ∀ w ∈ waiting, l.called w.2 = true) :
    waiting.filter (blocked ·.2) = [] := by
  refine List.filter_eq_nil_iff.2 fun w hm hb => ?_
  have hc := hw w hm
  cases ha : w.2 <;> simp [ha, blocked, called] at hb hc

theorem queued_of_called (hw : ∀ w ∈ waiting, l.called w.2 = true) :
    waiting.filter (l.queued ·.2) = [] := by
  refine List.filter_eq_nil_iff.2 fun w hm hb => ?_
  have hc := hw w hm
  cases ha : w.2 <;> simp [ha, queued, called] at hb hc
  exact hb hc

theorem called_mono {l' : Lock} (h : ∀ d ∈ l.resolved, d ∈ l'.resolved) {awaits : Acquiring}
    (hc : l.called awaits = true) : l'.called awaits = true := by
  cases awaits with
  | globalLockAcquiringLock d => exact decide_eq_true (h d (of_decide_eq_true hc))
  | blockingLock d => cases hc
  | acquired => cases hc

theorem queues_of_called {awaits : Acquiring} (hc : l.called awaits = true) : l.Queues awaits := by
  cases awaits with
  | globalLockAcquiringLock d => exact .inr (of_decide_eq_true hc)
  | blockingLock d => cases hc
  | acquired => cases hc

/-- Where all that wait have been called on. -/
theorem Queued.of_called (hf : l.Fresh) (hw : ∀ w ∈ waiting, l.called w.2 = true) :
    l.Queued waiting ∧ l.inTurn waiting = waiting.map (·.1) := by
  have hb := blocked_of_called hw
  refine ⟨⟨hf, fun w hm => queues_of_called (hw w hm), by simp [hb], fun _ => hb,
    fun w hm hbw => absurd hbw (List.filter_eq_nil_iff.1 hb w hm)⟩, ?_⟩
  rw [inTurn, hb, queued_of_called hw, List.filter_eq_self.2 hw]
  rfl

/-- One more call waits for the one that acquires the lock. -/
theorem Queued.queue (h : l.Queued waiting) {d : ℕ} (hd : l.globalLockAcquiringLock = some d)
    (r : R) :
    l.Queued (waiting ++ [(r, .globalLockAcquiringLock d)]) ∧
      l.inTurn (waiting ++ [(r, .globalLockAcquiringLock d)])
        = (waiting.filter (blocked ·.2) ++ waiting.filter (l.queued ·.2)).map (·.1)
          ++ r :: (waiting.filter (l.called ·.2)).map (·.1) ∧
      (waiting ++ [(r, Acquiring.globalLockAcquiringLock d)]).filter (l.called ·.2)
        = waiting.filter (l.called ·.2) := by
  have hnot : d ∉ l.resolved := (h.fresh.acquiring d hd).2.1
  have hb : (waiting ++ [(r, Acquiring.globalLockAcquiringLock d)]).filter (blocked ·.2)
      = waiting.filter (blocked ·.2) := by
    simp [List.filter_append, blocked]
  have hq : (waiting ++ [(r, Acquiring.globalLockAcquiringLock d)]).filter (l.queued ·.2)
      = waiting.filter (l.queued ·.2) ++ [(r, Acquiring.globalLockAcquiringLock d)] := by
    simp [List.filter_append, queued, hnot]
  have hc : (waiting ++ [(r, Acquiring.globalLockAcquiringLock d)]).filter (l.called ·.2)
      = waiting.filter (l.called ·.2) := by
    simp [List.filter_append, called, hnot]
  refine ⟨⟨h.fresh, fun w hm => ?_, hb ▸ h.one, fun hn => ?_, fun w hm hbw hww => ?_⟩, ?_, hc⟩
  · rcases List.mem_append.1 hm with hm | hm
    · exact h.waits w hm
    · obtain rfl := List.mem_singleton.1 hm
      exact .inl hd
  · rw [hn] at hd
    cases hd
  · rw [hc]
    rcases List.mem_append.1 hm with hm | hm
    · exact h.calm w hm hbw hww
    · obtain rfl := List.mem_singleton.1 hm
      cases hbw
  · rw [inTurn, hb, hq, hc]
    simp

/-- A call acquires the lock while another has it, and all that wait have been called on. -/
theorem Queued.block (hf : l.Fresh) (hw : ∀ w ∈ waiting, l.called w.2 = true) {d : ℕ}
    (hg : l.globalLock = some d) (r : R) :
    let l' := { l with
      nextDeferred := l.nextDeferred + 1
      globalLockAcquiringLock := some l.nextDeferred }
    l'.Queued (waiting ++ [(r, .blockingLock d)]) ∧
      l'.inTurn (waiting ++ [(r, .blockingLock d)]) = r :: waiting.map (·.1) ∧
      (waiting ++ [(r, Acquiring.blockingLock d)]).filter (l'.called ·.2) = waiting := by
  intro l'
  have hw' : ∀ w ∈ waiting, l'.called w.2 = true := fun w hm => called_mono (fun _ => id) (hw w hm)
  have hb : (waiting ++ [(r, Acquiring.blockingLock d)]).filter (blocked ·.2)
      = [(r, .blockingLock d)] := by
    rw [List.filter_append, blocked_of_called hw]
    rfl
  have hq : (waiting ++ [(r, Acquiring.blockingLock d)]).filter (l'.queued ·.2) = [] := by
    rw [List.filter_append, queued_of_called hw']
    rfl
  have hc : (waiting ++ [(r, Acquiring.blockingLock d)]).filter (l'.called ·.2) = waiting := by
    rw [List.filter_append, List.filter_eq_self.2 hw']
    exact List.append_nil _
  refine ⟨⟨hf.begin, fun w hm => ?_, by simp [hb], fun hn => ?_, fun w hm hbw hww => ?_⟩, ?_, hc⟩
  · rcases List.mem_append.1 hm with hm | hm
    · exact queues_of_called (hw' w hm)
    · obtain rfl := List.mem_singleton.1 hm
      exact .inl hg
  · cases hn
  · rcases List.mem_append.1 hm with hm | hm
    · exact absurd hbw (List.filter_eq_nil_iff.1 (blocked_of_called hw) w hm)
    · obtain rfl := List.mem_singleton.1 hm
      exact absurd (of_decide_eq_true hww) (hf.global d hg).2
  · rw [inTurn, hb, hq, hc]
    rfl

/-- With none that acquires the lock, who waits has been called on. -/
theorem Queued.called_of_free (h : l.Queued waiting) (ha : l.globalLockAcquiringLock = none) :
    ∀ w ∈ waiting, l.called w.2 = true := by
  intro w hm
  have hw := h.waits w hm
  rcases hwa : w.2 with d | d | _
  · rw [hwa] at hw
    refine decide_eq_true (hw.resolve_left fun hd => ?_)
    rw [ha] at hd
    cases hd
  · refine absurd ?_ (List.filter_eq_nil_iff.1 (h.free ha) w hm)
    rw [hwa]
    rfl
  · rw [hwa] at hw
    exact hw.elim

/-- A call made while none has been called on is last in turn. -/
theorem Queued.acquire (h : l.Queued waiting) (hc : waiting.filter (l.called ·.2) = []) (r : R)
    {l' : Lock} {awaits : Acquiring} (hl : l.acquire "" = (l', awaits)) :
    (awaits ≠ .acquired ∧ l'.Queued (waiting ++ [(r, awaits)])
        ∧ l'.inTurn (waiting ++ [(r, awaits)]) = l.inTurn waiting ++ [r]
        ∧ (waiting ++ [(r, awaits)]).filter (l'.called ·.2) = [])
      ∨ awaits = .acquired ∧ waiting = [] ∧ l'.Fresh := by
  rcases ha : l.globalLockAcquiringLock with _ | d
  · have hw := h.called_of_free ha
    obtain rfl : waiting = [] := (List.filter_eq_self.2 hw).symm.trans hc
    rcases hg : l.globalLock with _ | d
    · rw [acquire_take h.fresh.named ha hg] at hl
      obtain ⟨rfl, rfl⟩ := Prod.mk.inj hl
      exact .inr ⟨rfl, rfl, h.fresh.begin.take⟩
    · rw [acquire_block ha hg] at hl
      obtain ⟨rfl, rfl⟩ := Prod.mk.inj hl
      obtain ⟨hq, ht, hc'⟩ := Queued.block h.fresh hw hg r
      exact .inl ⟨by simp, hq, ht, hc'⟩
  · rw [acquire_queue ha] at hl
    obtain ⟨rfl, rfl⟩ := Prod.mk.inj hl
    obtain ⟨hq, ht, hc'⟩ := h.queue ha r
    refine .inl ⟨by simp, hq, ?_, hc'.trans hc⟩
    rw [ht, hc, inTurn, hc]
    simp

/-- A release calls on no one who waits for the lock to be acquired. -/
theorem Queued.release (h : l.Queued waiting) (hc : waiting.filter (l.called ·.2) = []) :
    (l.release "").Queued waiting ∧ (l.release "").inTurn waiting = l.inTurn waiting := by
  have hresolved : (l.release "").resolved = l.globalLock.toList ++ l.resolved := rfl
  -- the lock that is being acquired is not the one that is released
  have hcalled : ∀ w ∈ waiting, (l.release "").called w.2 = l.called w.2 := by
    intro w hm
    have hw := h.waits w hm
    rcases hwa : w.2 with d | d | _
    · rw [hwa] at hw
      rcases hw with hd | hd
      · obtain ⟨-, hr, hg⟩ := h.fresh.acquiring d hd
        simp [called, hresolved, hr, hg]
      · simp [called, hresolved, hd]
    · rfl
    · rfl
  have hqueued : ∀ w ∈ waiting, (l.release "").queued w.2 = l.queued w.2 := by
    intro w hm
    have hcw := hcalled w hm
    rcases hwa : w.2 with d | d | _
    · rw [hwa] at hcw
      simpa [called, queued] using Bool.eq_iff_iff.1 hcw
    · rfl
    · rfl
  have hcf : waiting.filter ((l.release "").called ·.2) = waiting.filter (l.called ·.2) :=
    List.filter_congr hcalled
  refine ⟨⟨h.fresh.release, fun w hm => ?_, h.one, h.free, fun _ _ _ _ => hcf.trans hc⟩, ?_⟩
  · have hw := h.waits w hm
    rcases hwa : w.2 with d | d | _
    · rw [hwa] at hw
      exact hw.imp_right fun hd => List.mem_append_right _ hd
    · rw [hwa] at hw
      refine .inr ⟨?_, rfl⟩
      rcases hw with hd | ⟨hd, -⟩
      · exact List.mem_append_left _ (by simp [hd])
      · exact List.mem_append_right _ hd
    · rw [hwa] at hw
      exact hw
  · rw [inTurn, inTurn, hcf, List.filter_congr hqueued]

variable {pre post : List (R × Acquiring)} {r : R} {d : ℕ} {l' : Lock} {awaits : Acquiring}

theorem mem_rest {w : R × Acquiring} (hm : w ∈ pre ++ post) (a : R × Acquiring) :
    w ∈ pre ++ a :: post := by
  rcases List.mem_append.1 hm with hm | hm
  · exact List.mem_append_left _ hm
  · exact List.mem_append_right _ (List.mem_cons_of_mem _ hm)

/-- A call that has been called on goes on, and keeps its turn if it does not take it. -/
theorem Queued.wakeCalled (h : l.Queued (pre ++ (r, .globalLockAcquiringLock d) :: post))
    (hd : d ∈ l.resolved) (hpre : ∀ w ∈ pre, l.woken w.2 = false)
    (hl : l.acquire "" = (l', awaits)) :
    (awaits ≠ .acquired ∧ l'.Queued (pre ++ post ++ [(r, awaits)])
        ∧ l'.inTurn (pre ++ post ++ [(r, awaits)])
          = l.inTurn (pre ++ (r, .globalLockAcquiringLock d) :: post))
      ∨ awaits = .acquired ∧ l'.Fresh ∧ (∀ w ∈ pre ++ post, l'.called w.2 = true)
        ∧ l.inTurn (pre ++ (r, .globalLockAcquiringLock d) :: post) = r :: (pre ++ post).map (·.1) := by
  have hb : (pre ++ (r, Acquiring.globalLockAcquiringLock d) :: post).filter (blocked ·.2)
      = (pre ++ post).filter (blocked ·.2) := by
    simp [List.filter_append, blocked]
  have hq : (pre ++ (r, Acquiring.globalLockAcquiringLock d) :: post).filter (l.queued ·.2)
      = (pre ++ post).filter (l.queued ·.2) := by
    simp [List.filter_append, queued, hd]
  have hc : (pre ++ (r, Acquiring.globalLockAcquiringLock d) :: post).filter (l.called ·.2)
      = (r, .globalLockAcquiringLock d) :: (pre ++ post).filter (l.called ·.2) := by
    have hnone : pre.filter (l.called ·.2) = [] := by
      refine List.filter_eq_nil_iff.2 fun w hm hcw => ?_
      have hnw := hpre w hm
      rcases hwa : w.2 with d' | d' | _ <;> rw [hwa] at hnw hcw
      · rw [show l.woken (.globalLockAcquiringLock d') = true from hcw] at hnw
        cases hnw
      · cases hcw
      · cases hcw
    rw [List.filter_append, List.filter_append, hnone,
      List.filter_cons_of_pos (by exact decide_eq_true hd)]
    rfl
  have hq' : l.Queued (pre ++ post) := by
    refine ⟨h.fresh, fun w hm => h.waits w (mem_rest hm _), hb ▸ h.one, fun ha => hb ▸ h.free ha,
      fun w hm hbw hww => ?_⟩
    have hnil := h.calm w (mem_rest hm _) hbw hww
    rw [hc] at hnil
    cases hnil
  rcases ha : l.globalLockAcquiringLock with _ | d'
  · have hw := hq'.called_of_free ha
    have ht : l.inTurn (pre ++ (r, .globalLockAcquiringLock d) :: post)
        = r :: (pre ++ post).map (·.1) := by
      rw [inTurn, hb, hq, hc, blocked_of_called hw, queued_of_called hw,
        List.filter_eq_self.2 hw]
      rfl
    rcases hg : l.globalLock with _ | g
    · rw [acquire_take h.fresh.named ha hg] at hl
      obtain ⟨rfl, rfl⟩ := Prod.mk.inj hl
      exact .inr ⟨rfl, h.fresh.begin.take,
        fun w hm => called_mono (fun _ hd => List.mem_append_right _ hd) (hw w hm), ht⟩
    · rw [acquire_block ha hg] at hl
      obtain ⟨rfl, rfl⟩ := Prod.mk.inj hl
      obtain ⟨hq'', ht', -⟩ := Queued.block h.fresh hw hg r
      exact .inl ⟨by simp, hq'', ht'.trans ht.symm⟩
  · rw [acquire_queue ha] at hl
    obtain ⟨rfl, rfl⟩ := Prod.mk.inj hl
    obtain ⟨hq'', ht', -⟩ := hq'.queue ha r
    refine .inl ⟨by simp, hq'', ht'.trans ?_⟩
    rw [inTurn, hb, hq, hc]
    simp

/-- The call that acquires the lock goes on once it is free, and takes its turn. -/
theorem Queued.wakeBlocked (h : l.Queued (pre ++ (r, .blockingLock d) :: post))
    (hd : d ∈ l.resolved) (hl : l.acquireBlocked "" = (l', awaits)) :
    awaits = .acquired ∧ l'.Fresh ∧ (∀ w ∈ pre ++ post, l'.called w.2 = true)
      ∧ l.inTurn (pre ++ (r, .blockingLock d) :: post) = r :: (pre ++ post).map (·.1) := by
  have hmem : (r, Acquiring.blockingLock d) ∈ pre ++ (r, .blockingLock d) :: post := by simp
  have hg : l.globalLock = none := by
    rcases h.waits _ hmem with hg | ⟨-, hg⟩
    · exact absurd hd (h.fresh.global d hg).2
    · exact hg
  rw [acquireBlocked_take h.fresh.named hg] at hl
  obtain ⟨rfl, rfl⟩ := Prod.mk.inj hl
  have hnone := h.calm _ hmem rfl (decide_eq_true hd)
  have hb : (pre ++ post).filter (blocked ·.2) = [] := by
    have hone := h.one
    simp only [List.filter_append, List.filter_cons_of_pos, blocked, List.length_append,
      List.length_cons] at hone
    refine List.eq_nil_of_length_eq_zero ?_
    simp only [List.filter_append, List.length_append, blocked]
    omega
  have hqueued : ∀ w ∈ pre ++ post, l.queued w.2 = true
      ∧ ∃ d', w.2 = .globalLockAcquiringLock d' ∧ l.globalLockAcquiringLock = some d' := by
    intro w hm
    have hw := h.waits w (mem_rest hm _)
    have hncalled := List.filter_eq_nil_iff.1 hnone w (mem_rest hm _)
    have hnblocked := List.filter_eq_nil_iff.1 hb w hm
    rcases hwa : w.2 with d' | d' | _ <;> rw [hwa] at hw hncalled hnblocked
    · have hnr : d' ∉ l.resolved := by simpa [called] using hncalled
      exact ⟨decide_eq_true hnr, d', rfl, hw.resolve_right hnr⟩
    · exact absurd rfl hnblocked
    · exact hw.elim
  refine ⟨rfl, h.fresh.take, fun w hm => ?_, ?_⟩
  · obtain ⟨-, d', hwa, ha⟩ := hqueued w hm
    rw [hwa]
    refine decide_eq_true (List.mem_append_left _ ?_)
    simp [ha]
  · have hbw : (pre ++ (r, Acquiring.blockingLock d) :: post).filter (blocked ·.2)
        = [(r, .blockingLock d)] := by
      simp only [List.filter_append, List.append_eq_nil_iff] at hb
      rw [List.filter_append, hb.1, List.filter_cons_of_pos rfl, hb.2]
      rfl
    have hqw : (pre ++ (r, Acquiring.blockingLock d) :: post).filter (l.queued ·.2)
        = pre ++ post := by
      rw [List.filter_append, List.filter_cons_of_neg (by simp [queued]), ← List.filter_append]
      exact List.filter_eq_self.2 fun w hm => (hqueued w hm).1
    rw [inTurn, hbw, hqw, hnone]
    simp

/-- A call that is called on and goes on keeps its turn, or takes it. -/
theorem Queued.wake (h : l.Queued waiting) {a : Acquiring}
    (hf : waiting.find? (l.woken ·.2) = some (r, a)) (hl : l.resume "" a = some (l', awaits)) :
    (awaits ≠ .acquired ∧ l'.Queued (waiting.eraseP (l.woken ·.2) ++ [(r, awaits)])
        ∧ l'.inTurn (waiting.eraseP (l.woken ·.2) ++ [(r, awaits)]) = l.inTurn waiting)
      ∨ awaits = .acquired ∧ l'.Fresh
        ∧ (∀ w ∈ waiting.eraseP (l.woken ·.2), l'.called w.2 = true)
        ∧ l.inTurn waiting = r :: (waiting.eraseP (l.woken ·.2)).map (·.1) := by
  obtain ⟨pre, post, rfl, he, hwoken, hpre⟩ := find?_eraseP hf
  rw [he]
  cases a with
  | acquired => cases hl
  | globalLockAcquiringLock d =>
    have hd : d ∈ l.resolved := of_decide_eq_true hwoken
    simp only [resume, if_pos hd, Option.some.injEq] at hl
    exact h.wakeCalled hd hpre hl
  | blockingLock d =>
    have hd : d ∈ l.resolved := of_decide_eq_true hwoken
    simp only [resume, if_pos hd, Option.some.injEq] at hl
    exact .inr (h.wakeBlocked hd hl)

end inTurn

end Lock

end NodeCqrs
