import Mathlib.Tactic.Common
import NodeCqrs.Redis.ViewLocker

/-!
# Release and re-lock of `RedisViewLocker`

`unlock()` reads the token when it sends its script and clears it with the answer. A `lock()` that is
called in between loses its token, and with it the lock: `prolongLock()` fails and the next
`unlock()` leaves the key (`relocks_fails`). Where calls come one at a time (`Sequential`), the key
is free after the last `unlock()` and `prolongLock()` succeeds as long as the lock is held
(`relocks`).
-/

namespace NodeCqrs

namespace RedisViewLocker

open Machine (ReachIf)

/-- Each `lock()` is called after the previous `unlock()`. -/
def Alternate (s : Sys) : Action → Prop
  | .lock => s.unlocked = true ∨ s.locks = 0
  | _ => True

/-- Each `lock()` is called when the previous `unlock()` has resolved, and `unlock()` when no `lock()`
is under way. -/
def Sequential (s : Sys) : Action → Prop
  | .lock => (s.unlocked = true ∨ s.locks = 0) ∧ s.unlocking = 0 ∧ s.locking = 0
  | .unlock => s.locking = 0
  | _ => True

variable {viewLockTtl : ℕ} {s s' : Sys} {a : Action}

/-! ## The calls under way -/

/-- Calls come one at a time. -/
structure Calls (s : Sys) : Prop where
  one : s.locking ≤ 1
  locking : 0 < s.locking → s.unlocked = false ∧ s.locked = false ∧ s.unlocking = 0 ∧
    0 < s.locks ∧ ∃ n, s.lockToken = some (.own n)
  unlocking : 0 < s.unlocking → s.unlocked = true
  locked : s.locked = true → s.unlocked = false ∧ 0 < s.locks

theorem Calls.congr (h : Calls s) (hlocking : s'.locking = s.locking)
    (hunlocking : s'.unlocking = s.unlocking) (hunlocked : s'.unlocked = s.unlocked)
    (hlocked : s'.locked = s.locked) (hlocks : s'.locks = s.locks)
    (htoken : s'.lockToken = s.lockToken) : Calls s' := by
  constructor
  · rw [hlocking]
    exact h.one
  · rw [hlocking, hunlocking, hunlocked, hlocked, hlocks, htoken]
    exact h.locking
  · rw [hunlocking, hunlocked]
    exact h.unlocking
  · rw [hlocked, hunlocked, hlocks]
    exact h.locked

theorem locking_connect {call : Waiter} {connecting : List Waiter}
    (hc : s.connecting = call :: connecting) :
    Sys.locking { s with connecting, issued := s.issued ++ [send s call] } = s.locking := by
  cases call <;> simp [Sys.locking, List.countP_cons, hc, send, Waiter.isLock, Command.isSet]
  omega

theorem unlocking_connect {call : Waiter} {connecting : List Waiter}
    (hc : s.connecting = call :: connecting) :
    Sys.unlocking { s with connecting, issued := s.issued ++ [send s call] } = s.unlocking := by
  cases call <;> simp [Sys.unlocking, List.countP_cons, hc, send, Waiter.isUnlock, Command.isRelease]
  omega

theorem locking_exec {command : Command} {issued : List Command}
    (hc : s.issued = command :: issued) :
    (exec viewLockTtl { s with issued } command).locking = s.locking := by
  rcases command with token | ⟨token, held⟩ | token
  · unfold exec
    simp only []
    split <;> simp [Sys.locking, hc, List.countP_cons, Command.isSet, Reply.isSet] <;> omega
  · simp [Sys.locking, hc, exec, Command.isSet, Reply.isSet]
  · simp [Sys.locking, hc, exec, Command.isSet, Reply.isSet]

theorem unlocking_exec {command : Command} {issued : List Command}
    (hc : s.issued = command :: issued) :
    (exec viewLockTtl { s with issued } command).unlocking = s.unlocking := by
  rcases command with token | ⟨token, held⟩ | token
  · unfold exec
    simp only []
    split <;> simp [Sys.unlocking, hc, Command.isRelease, Reply.isRelease]
  · simp [Sys.unlocking, hc, exec, Command.isRelease, Reply.isRelease]
  · simp [Sys.unlocking, hc, exec, List.countP_cons, Command.isRelease, Reply.isRelease]
    omega

theorem locking_retry {till : ℤ} {delays : List ℤ} (hc : s.delays = till :: delays) :
    Sys.locking { s with delays, issued := s.issued ++ [.set s.lockToken] } = s.locking := by
  simp [Sys.locking, hc, Command.isSet]
  omega

theorem unlocking_retry (delays : List ℤ) :
    Sys.unlocking { s with delays, issued := s.issued ++ [.set s.lockToken] } = s.unlocking := by
  simp [Sys.unlocking, Command.isRelease]

/-- What Redis does to the fields of the locker: nothing. -/
theorem exec_spec (viewLockTtl : ℕ) (s : Sys) (command : Command) :
    (exec viewLockTtl s command).locked = s.locked ∧
    (exec viewLockTtl s command).unlocked = s.unlocked ∧
    (exec viewLockTtl s command).locks = s.locks ∧
    (exec viewLockTtl s command).lockToken = s.lockToken ∧
    (exec viewLockTtl s command).connecting = s.connecting ∧
    (exec viewLockTtl s command).issued = s.issued ∧
    (exec viewLockTtl s command).now = s.now := by
  rcases command with token | ⟨token, held⟩ | token
  · unfold exec
    simp only []
    split <;> simp
  · simp [exec]
  · simp [exec]

/-- A `lock()` call ends. -/
theorem Calls.returned (h : Calls s) (hlocking : s.locking = s'.locking + 1)
    (hunlocking : s'.unlocking = s.unlocking) (hunlocked : s'.unlocked = s.unlocked)
    (hlocks : s'.locks = s.locks) : Calls s' := by
  have hone := h.one
  obtain ⟨hu, -, -, hl, -⟩ := h.locking (by omega)
  refine ⟨by omega, fun _ => by omega, fun hu' => ?_, fun _ => ⟨hunlocked.trans hu, by omega⟩⟩
  rw [hunlocked]
  exact h.unlocking (hunlocking ▸ hu')

/-- An `unlock()` call ends. -/
theorem Calls.resolved (h : Calls s) (hlocking : s'.locking = s.locking)
    (hunlocking : s.unlocking = s'.unlocking + 1) (hunlocked : s'.unlocked = s.unlocked)
    (hlocked : s'.locked = s.locked) (hlocks : s'.locks = s.locks) : Calls s' := by
  refine ⟨hlocking ▸ h.one, fun hl => ?_, fun _ => ?_, ?_⟩
  · obtain ⟨-, -, hu, -⟩ := h.locking (hlocking ▸ hl)
    omega
  · rw [hunlocked]
    exact h.unlocking (by omega)
  · rw [hlocked, hunlocked, hlocks]
    exact h.locked

theorem Calls.reply (h : Calls s) {reply : Reply} {replies : List Reply}
    (hc : s.replies = reply :: replies) : Calls (goOn viewLockTtl { s with replies } reply) := by
  rcases reply with ⟨e | _ | _⟩ | result | _
  · refine h.returned ?_ ?_ rfl rfl
    · simp [goOn, Sys.locking, hc, List.countP_cons, Reply.isSet]
      omega
    · simp [goOn, Sys.unlocking, hc, Reply.isRelease]
  · refine h.congr ?_ ?_ rfl rfl rfl rfl <;>
      simp [goOn, Sys.locking, Sys.unlocking, hc, List.countP_cons, Reply.isSet, Reply.isRelease]
    omega
  · refine h.returned ?_ ?_ rfl rfl
    · simp [goOn, scheduleLockProlongation, Sys.locking, hc, List.countP_cons, Reply.isSet]
      omega
    · simp [goOn, scheduleLockProlongation, Sys.unlocking, hc, Reply.isRelease]
  · simp only [goOn]
    split_ifs <;> refine h.congr ?_ ?_ rfl rfl rfl rfl <;>
      simp [scheduleLockProlongation, Sys.locking, Sys.unlocking, hc, Reply.isSet, Reply.isRelease]
  · refine h.resolved ?_ ?_ rfl rfl rfl
    · simp [goOn, Sys.locking, hc, Reply.isSet]
    · simp [goOn, Sys.unlocking, hc, List.countP_cons, Reply.isRelease]
      omega

theorem Calls.not_locked (h : Calls s) (hlast : s.unlocked = true ∨ s.locks = 0) :
    s.locked = false := by
  refine Bool.eq_false_iff.2 fun hl => ?_
  obtain ⟨hu, hk⟩ := h.locked hl
  rcases hlast with hlast | hlast
  · simp [hu] at hlast
  · omega

theorem calls_step (h : Calls s) (hseq : Sequential s a) (hst : step viewLockTtl s a = some s') :
    Calls s' := by
  unfold step at hst
  cases a with
  | tick ms => exact Option.some.inj hst ▸ h.congr rfl rfl rfl rfl rfl rfl
  | others key =>
    simp only [] at hst
    split_ifs at hst
    exact Option.some.inj hst ▸ h.congr rfl rfl rfl rfl rfl rfl
  | lock =>
    obtain rfl := Option.some.inj hst
    obtain ⟨hlast, hunlocking, hlocking⟩ := hseq
    have hnot := h.not_locked hlast
    have hl : Sys.locking { s with
        lockMarker := true
        lockToken := some (.own s.locks)
        locks := s.locks + 1
        unlocked := false
        connecting := s.connecting ++ [.lock] } = s.locking + 1 := by
      simp [Sys.locking, Waiter.isLock]
      omega
    have hu : Sys.unlocking { s with
        lockMarker := true
        lockToken := some (.own s.locks)
        locks := s.locks + 1
        unlocked := false
        connecting := s.connecting ++ [.lock] } = s.unlocking := by
      simp [Sys.unlocking, Waiter.isUnlock]
    exact ⟨by omega, fun _ => ⟨rfl, hnot, hu.trans hunlocking, Nat.succ_pos _, _, rfl⟩,
      fun hu' => by omega, fun _ => ⟨rfl, Nat.succ_pos _⟩⟩
  | unlock =>
    obtain rfl := Option.some.inj hst
    have hlocking : s.locking = 0 := hseq
    have hl : Sys.locking { cancelLockProlongation s with
        lockMarker := false
        locked := false
        unlocked := true
        connecting := s.connecting ++ [.unlock] } = s.locking := by
      simp [Sys.locking, cancelLockProlongation, Waiter.isLock]
    refine ⟨by omega, fun hl' => by omega, fun _ => rfl, fun hl => by cases hl⟩
  | fire handle =>
    simp only [] at hst
    split at hst
    · split_ifs at hst
      refine Option.some.inj hst ▸ h.congr ?_ ?_ rfl rfl rfl rfl <;>
        simp [Sys.locking, Sys.unlocking, Waiter.isLock, Waiter.isUnlock]
    · cases hst
  | connect =>
    simp only [] at hst
    split at hst
    · cases hst
    · rename_i hc
      exact Option.some.inj hst ▸ h.congr (locking_connect hc) (unlocking_connect hc) rfl rfl rfl rfl
  | exec =>
    simp only [] at hst
    split at hst
    · cases hst
    · rename_i command issued hc
      obtain ⟨hlocked, hunlocked, hlocks, htoken, -⟩ :=
        exec_spec viewLockTtl { s with issued } command
      exact Option.some.inj hst ▸
        h.congr (locking_exec hc) (unlocking_exec hc) hunlocked hlocked hlocks htoken
  | reply =>
    simp only [] at hst
    split at hst
    · cases hst
    · rename_i hc
      exact Option.some.inj hst ▸ h.reply hc
  | retry =>
    simp only [] at hst
    split at hst
    · cases hst
    · rename_i hc
      split_ifs at hst
      exact Option.some.inj hst ▸ h.congr (locking_retry hc) (unlocking_retry _) rfl rfl rfl rfl

theorem locking_of_set {result : Except String Bool} (h : .set result ∈ s.replies) :
    0 < s.locking := by
  have : 0 < s.replies.countP Reply.isSet := List.countP_pos_iff.2 ⟨_, h, rfl⟩
  unfold Sys.locking
  omega

theorem locking_of_issued {token : Option LockToken} (h : .set token ∈ s.issued) :
    0 < s.locking := by
  have : 0 < s.issued.countP Command.isSet := List.countP_pos_iff.2 ⟨_, h, rfl⟩
  unfold Sys.locking
  omega

theorem unlocking_of_release (h : .release ∈ s.replies) : 0 < s.unlocking := by
  have : 0 < s.replies.countP Reply.isRelease := List.countP_pos_iff.2 ⟨_, h, rfl⟩
  unfold Sys.unlocking
  omega

theorem unlocking_of_issued {token : Option LockToken} (h : .release token ∈ s.issued) :
    0 < s.unlocking := by
  have : 0 < s.issued.countP Command.isRelease := List.countP_pos_iff.2 ⟨_, h, rfl⟩
  unfold Sys.unlocking
  omega

theorem unlocking_of_connecting (h : .unlock ∈ s.connecting) : 0 < s.unlocking := by
  have : 0 < s.connecting.countP Waiter.isUnlock := List.countP_pos_iff.2 ⟨_, h, rfl⟩
  unfold Sys.unlocking
  omega

/-- Of a locker that holds the lock no call is under way. -/
theorem Calls.at_rest (h : Calls s) (hl : s.locked = true) : s.locking = 0 ∧ s.unlocking = 0 := by
  refine ⟨Nat.eq_zero_of_not_pos fun hp => ?_, Nat.eq_zero_of_not_pos fun hp => ?_⟩
  · simp [(h.locking hp).2.1] at hl
  · have := h.unlocking hp
    simp [(h.locked hl).1] at this

/-! ## The order of the calls -/

/-- The call was fired when the lock was held, and its script has not run. -/
def Held (s : Sys) : Prop :=
  .prolongLock true ∈ s.connecting ∨ ∃ token, .prolong token true ∈ s.issued

/-- No `unlock()` overtakes a `prolongLock()` that was fired before it. -/
structure Order (s : Sys) : Prop where
  held : Held s → s.locking = 0 ∧ .release ∉ s.replies ∧ (s.locked = true ∨ 0 < s.unlocking)
  connecting : s.connecting.Pairwise fun call call' => call = .unlock → call' ≠ .prolongLock true
  issued : s.issued.Pairwise fun command command' =>
    command.isRelease → ∀ token, command' ≠ .prolong token true
  ahead : ∀ token, .release token ∈ s.issued → .prolongLock true ∉ s.connecting

theorem Order.congr (h : Order s) (hconnecting : s'.connecting = s.connecting)
    (hissued : s'.issued = s.issued) (hlocking : s'.locking = s.locking)
    (hunlocking : s'.unlocking = s.unlocking) (hlocked : s'.locked = s.locked)
    (hreplies : .release ∈ s'.replies → .release ∈ s.replies) : Order s' := by
  constructor
  · unfold Held
    rw [hconnecting, hissued, hlocking, hunlocking, hlocked]
    exact fun hh => ⟨(h.held hh).1, fun hr => (h.held hh).2.1 (hreplies hr), (h.held hh).2.2⟩
  · rw [hconnecting]
    exact h.connecting
  · rw [hissued]
    exact h.issued
  · rw [hconnecting, hissued]
    exact h.ahead

theorem Order.not_held (h : Order s) (hcalls : Calls s) (hseq : Sequential s .lock) : ¬ Held s := by
  obtain ⟨hlast, hunlocking, -⟩ := hseq
  intro hh
  rcases (h.held hh).2.2 with hl | hu
  · simp [hcalls.not_locked hlast] at hl
  · omega

theorem held_of_connect {call : Waiter} {connecting : List Waiter}
    (hc : s.connecting = call :: connecting)
    (hh : Held { s with connecting, issued := s.issued ++ [send s call] }) : Held s := by
  rcases hh with hh | ⟨token, hh⟩
  · exact .inl (by rw [hc]; exact List.mem_cons_of_mem _ hh)
  · rcases List.mem_append.1 hh with hh | hh
    · exact .inr ⟨token, hh⟩
    · cases call <;> simp [send] at hh
      exact .inl (by simp [hc, hh])

theorem Order.connect (h : Order s) {call : Waiter} {connecting : List Waiter}
    (hc : s.connecting = call :: connecting) :
    Order { s with connecting, issued := s.issued ++ [send s call] } := by
  have hpair := h.connecting
  rw [hc, List.pairwise_cons] at hpair
  obtain ⟨hhead, hpair⟩ := hpair
  refine ⟨fun hh => ?_, hpair, ?_, fun token hr => ?_⟩
  · rw [locking_connect hc, unlocking_connect hc]
    exact h.held (held_of_connect hc hh)
  · refine List.pairwise_append.2 ⟨h.issued, List.pairwise_singleton _ _, fun x hx y hy hr token => ?_⟩
    obtain rfl := List.mem_singleton.1 hy
    rcases call with _ | held | _
    · simp [send]
    · rintro ⟨rfl, rfl⟩
      cases x with
      | release token => exact h.ahead token hx (by simp [hc])
      | _ => cases hr
    · simp [send]
  · rcases List.mem_append.1 hr with hr | hr
    · exact fun hm => h.ahead token hr (by rw [hc]; exact List.mem_cons_of_mem _ hm)
    · cases call <;> simp [send] at hr
      exact fun hm => hhead _ hm rfl rfl

theorem Order.exec (h : Order s) {command : Command} {issued : List Command}
    (hc : s.issued = command :: issued) : Order (exec viewLockTtl { s with issued } command) := by
  obtain ⟨hlocked, -, -, -, hconnecting, hissued, -⟩ :=
    exec_spec viewLockTtl { s with issued } command
  have hpair := h.issued
  rw [hc, List.pairwise_cons] at hpair
  have hback : ∀ {command'}, command' ∈ issued → command' ∈ s.issued := by
    intro command' hm
    rw [hc]
    exact List.mem_cons_of_mem _ hm
  refine ⟨fun hh => ?_, ?_, ?_, fun token hr => ?_⟩
  · rw [locking_exec hc, unlocking_exec hc, hlocked]
    have hheld : Held s := by
      rcases hh with hh | ⟨token, hh⟩
      · exact .inl (hconnecting ▸ hh)
      · rw [hissued] at hh
        exact .inr ⟨token, hback hh⟩
    obtain ⟨hl, hr, hu⟩ := h.held hheld
    refine ⟨hl, ?_, hu⟩
    rcases command with token | ⟨token, held⟩ | token
    · have : 0 < s.locking := locking_of_issued (by rw [hc]; exact List.mem_cons_self)
      omega
    · simpa [RedisViewLocker.exec] using hr
    · -- the script of `unlock()` runs when no such call is behind it
      rcases hh with hh | ⟨token', hh⟩
      · exact absurd (hconnecting ▸ hh) (h.ahead token (by simp [hc]))
      · rw [hissued] at hh
        exact absurd rfl (hpair.1 _ hh rfl token')
  · rw [hconnecting]
    exact h.connecting
  · rw [hissued]
    exact hpair.2
  · rw [hissued] at hr
    rw [hconnecting]
    exact h.ahead token (hback hr)

/-- What an answer does to the waiting calls and commands: nothing. -/
theorem goOn_spec (viewLockTtl : ℕ) (s : Sys) (reply : Reply) :
    (goOn viewLockTtl s reply).connecting = s.connecting ∧
    (goOn viewLockTtl s reply).issued = s.issued ∧
    (goOn viewLockTtl s reply).replies = s.replies ∧
    (goOn viewLockTtl s reply).unlocked = s.unlocked ∧
    (goOn viewLockTtl s reply).locks = s.locks ∧
    (goOn viewLockTtl s reply).now = s.now ∧
    (goOn viewLockTtl s reply).key = s.key ∧
    (goOn viewLockTtl s reply).expiresAt = s.expiresAt ∧
    (goOn viewLockTtl s reply).written = s.written := by
  rcases reply with ⟨e | _ | _⟩ | result | _ <;> try exact ⟨rfl, rfl, rfl, rfl, rfl, rfl, rfl, rfl, rfl⟩
  simp only [goOn]
  split_ifs <;> exact ⟨rfl, rfl, rfl, rfl, rfl, rfl, rfl, rfl, rfl⟩

theorem Order.reply (h : Order s) {reply : Reply} {replies : List Reply}
    (hc : s.replies = reply :: replies) : Order (goOn viewLockTtl { s with replies } reply) := by
  obtain ⟨hconnecting, hissued, hreplies, -⟩ :=
    goOn_spec viewLockTtl { s with replies } reply
  refine ⟨fun hh => ?_, ?_, ?_, ?_⟩
  · unfold Held at hh
    rw [hconnecting, hissued] at hh
    obtain ⟨hl, hr, hu⟩ := h.held hh
    -- the answer is one to `prolongLock()`
    rcases reply with result | result | _
    · have : 0 < s.locking := locking_of_set (by rw [hc]; exact List.mem_cons_self)
      omega
    · rw [hreplies]
      refine ⟨?_, fun hm => hr (by rw [hc]; exact List.mem_cons_of_mem _ hm), ?_⟩
      · rw [← hl]
        simp only [goOn]
        split_ifs <;> simp [scheduleLockProlongation, Sys.locking, hc, Reply.isSet]
      · refine hu.imp (fun hl => ?_) fun hu => ?_
        · simp only [goOn]
          split_ifs <;> exact hl
        · refine Nat.lt_of_lt_of_eq hu ?_
          simp only [goOn]
          split_ifs <;> simp [scheduleLockProlongation, Sys.unlocking, hc, Reply.isRelease]
    · exact absurd (by simp [hc]) hr
  · rw [hconnecting]
    exact h.connecting
  · rw [hissued]
    exact h.issued
  · rw [hconnecting, hissued]
    exact h.ahead

theorem Order.push (h : Order s) {call : Waiter} (hconnecting : s'.connecting = s.connecting ++ [call])
    (hissued : s'.issued = s.issued) (hcall : call = .prolongLock true → s.unlocking = 0)
    (hheld : Held s' → s'.locking = 0 ∧ .release ∉ s'.replies ∧
      (s'.locked = true ∨ 0 < s'.unlocking)) : Order s' := by
  refine ⟨hheld, ?_, hissued ▸ h.issued, fun token hr hm => ?_⟩
  · rw [hconnecting]
    refine List.pairwise_append.2 ⟨h.connecting, List.pairwise_singleton _ _, fun x hx y hy hu hp => ?_⟩
    have := unlocking_of_connecting (hu ▸ hx)
    have := hcall ((List.mem_singleton.1 hy).symm.trans hp)
    omega
  · rw [hissued] at hr
    rw [hconnecting] at hm
    rcases List.mem_append.1 hm with hm | hm
    · exact h.ahead token hr hm
    · have := unlocking_of_issued hr
      have := hcall (List.mem_singleton.1 hm).symm
      omega

theorem order_step (h : Order s) (hcalls : Calls s) (hseq : Sequential s a)
    (hst : step viewLockTtl s a = some s') : Order s' := by
  unfold step at hst
  cases a with
  | tick ms => exact Option.some.inj hst ▸ h.congr rfl rfl rfl rfl rfl id
  | others key =>
    simp only [] at hst
    split_ifs at hst
    exact Option.some.inj hst ▸ h.congr rfl rfl rfl rfl rfl id
  | lock =>
    have hnot := h.not_held hcalls hseq
    obtain rfl := Option.some.inj hst
    exact h.push rfl rfl (by simp) fun hh => absurd (by simpa [Held] using hh) hnot
  | unlock =>
    obtain rfl := Option.some.inj hst
    refine h.push rfl rfl (by simp) fun hh => ?_
    have hheld : Held s := by simpa [Held, cancelLockProlongation] using hh
    obtain ⟨hl, hr, -⟩ := h.held hheld
    refine ⟨?_, hr, .inr (unlocking_of_connecting (by simp))⟩
    rw [← hl]
    simp [Sys.locking, cancelLockProlongation, Waiter.isLock]
  | fire handle =>
    simp only [] at hst
    split at hst
    · split_ifs at hst
      obtain rfl := Option.some.inj hst
      have hl : Sys.locking { s with
          timers := s.timers.clear handle
          connecting := s.connecting ++ [.prolongLock s.locked] } = s.locking := by
        simp [Sys.locking, Waiter.isLock]
      have hu : Sys.unlocking { s with
          timers := s.timers.clear handle
          connecting := s.connecting ++ [.prolongLock s.locked] } = s.unlocking := by
        simp [Sys.unlocking, Waiter.isUnlock]
      refine h.push rfl rfl (fun hp => (hcalls.at_rest (Waiter.prolongLock.inj hp)).2) fun hh => ?_
      rw [hl, hu]
      by_cases hlocked : s.locked = true
      · obtain ⟨hl, hu⟩ := hcalls.at_rest hlocked
        exact ⟨hl, fun hr => absurd (unlocking_of_release hr) (by omega), .inl hlocked⟩
      · exact h.held (by simpa [Held, hlocked] using hh)
    · cases hst
  | connect =>
    simp only [] at hst
    split at hst
    · cases hst
    · rename_i hc
      exact Option.some.inj hst ▸ h.connect hc
  | exec =>
    simp only [] at hst
    split at hst
    · cases hst
    · rename_i hc
      exact Option.some.inj hst ▸ h.exec hc
  | reply =>
    simp only [] at hst
    split at hst
    · cases hst
    · rename_i hc
      exact Option.some.inj hst ▸ h.reply hc
  | retry =>
    simp only [] at hst
    split at hst
    · cases hst
    · rename_i till delays hc
      split_ifs at hst
      have hl : 0 < s.locking := by
        unfold Sys.locking
        simp only [hc, List.length_cons]
        omega
      obtain rfl := Option.some.inj hst
      refine ⟨fun hh => ?_, h.connecting, ?_, fun token hr => h.ahead token (by simpa using hr)⟩
      · have := (h.held (by simpa [Held] using hh)).1
        omega
      · exact List.pairwise_append.2 ⟨h.issued, List.pairwise_singleton _ _,
          fun x _ y hy _ token => by simp [List.mem_singleton.1 hy]⟩

/-! ## The key -/

theorem get_eq_some_iff {now : ℤ} {key : Key} {v : Option LockToken} :
    RedisKey.get now key = some v ↔
      ∃ k, key = some k ∧ k.value = v ∧ ∀ t ∈ k.expiresAt, now ≤ t := by
  unfold RedisKey.get
  rcases key with _ | k
  · simp
  · simp only [Option.bind_some, Option.some.injEq]
    constructor
    · intro h
      split_ifs at h with ht
      exact ⟨k, rfl, Option.some.inj h, ht⟩
    · rintro ⟨_, rfl, rfl, ht⟩
      rw [if_pos ht]

theorem get_some {now : ℤ} {token v : Option LockToken} {expiresAt : Option ℤ}
    (h : RedisKey.get now (some { value := token, expiresAt }) = some v) : v = token := by
  obtain ⟨k, hk, rfl, -⟩ := get_eq_some_iff.1 h
  rw [← Option.some.inj hk]

theorem get_tick {now : ℤ} {ms : ℕ} {key : Key} {v : Option LockToken}
    (h : RedisKey.get (now + ms) key = some v) : RedisKey.get now key = some v := by
  obtain ⟨k, rfl, hv, ht⟩ := get_eq_some_iff.1 h
  exact get_eq_some_iff.2 ⟨k, rfl, hv, fun t hm => by have := ht t hm; omega⟩

theorem get_prolong {now : ℤ} {token v : Option LockToken} {key : Key}
    (h : RedisKey.get now (SCRIPT_PROLONG_LOCK now token viewLockTtl key).1 = some v) :
    RedisKey.get now key = some v := by
  unfold SCRIPT_PROLONG_LOCK at h
  split_ifs at h with hv
  · obtain ⟨k, hk, rfl, -⟩ := get_eq_some_iff.1 h
    obtain ⟨k', rfl, rfl, ht⟩ := get_eq_some_iff.1 hv
    simp only [RedisKey.pexpire, Option.bind_some] at hk
    split_ifs at hk
    obtain rfl := Option.some.inj hk
    exact get_eq_some_iff.2 ⟨k', rfl, rfl, ht⟩
  · exact h

theorem get_release {now : ℤ} {token v : Option LockToken} {key : Key}
    (h : RedisKey.get now (SCRIPT_RELEASE_LOCK now token key).1 = some v) :
    RedisKey.get now key = some v ∧ v ≠ token := by
  unfold SCRIPT_RELEASE_LOCK at h
  split_ifs at h with hv
  · cases h
  · exact ⟨h, fun hvt => hv (hvt ▸ h)⟩

/-- `SET` takes the key that is not there, and leaves it alone otherwise. -/
theorem setNX_spec {now : ℤ} {token : Option LockToken} {key key' : Key} {ok : Bool}
    (h : RedisKey.setNX now token viewLockTtl key = .ok (key', ok)) :
    if ok then 0 < viewLockTtl ∧ key' = some { value := token, expiresAt := some (now + viewLockTtl) }
      else key' = key := by
  unfold RedisKey.setNX RedisKey.setPX at h
  by_cases hpx : viewLockTtl = 0
  · rw [if_pos hpx] at h
    cases h
  · rw [if_neg hpx] at h
    simp only [Except.map] at h
    split_ifs at h with hk <;> obtain ⟨rfl, rfl⟩ := Prod.mk.inj (Except.ok.inj h)
    · rfl
    · exact ⟨Nat.pos_of_ne_zero hpx, rfl⟩

theorem owned_iff : s.owned = true ↔ ∃ n, RedisKey.get s.now s.key = some (some (.own n)) := by
  unfold Sys.owned
  rcases RedisKey.get s.now s.key with _ | _ | n | n <;> simp [isOwn]

theorem get_ne_of_owned (h : s.owned = false) (n : ℕ) :
    RedisKey.get s.now s.key ≠ some (some (.own n)) := fun hn => by
  simp [owned_iff.2 ⟨n, hn⟩] at h

/-- The token is the locker's and the key has it until it expires. -/
def Owns (s : Sys) : Prop :=
  ∃ n, s.lockToken = some (.own n) ∧ ∀ t, s.expiresAt = some t → s.now ≤ t →
    s.key = some { value := some (.own n), expiresAt := some t }

/-- What the token, the key and the commands under way have to do with each other. -/
structure Keys (viewLockTtl : ℕ) (s : Sys) : Prop where
  named : s.lockToken = none ∨ ∃ n, s.lockToken = some (.own n)
  alive : RedisKey.get s.now s.key ≠ some none
  token : ∀ n, RedisKey.get s.now s.key = some (some (.own n)) → s.lockToken = some (.own n)
  px : s.owned = true → 0 < viewLockTtl
  set : ∀ token, .set token ∈ s.issued → token = s.lockToken
  prolongs : ∀ token held, .prolong token held ∈ s.issued →
    token = none ∨ ∃ n, token = some (.own n)
  prolong : ∀ token, .prolong token true ∈ s.issued → token = s.lockToken
  release : ∀ token, .release token ∈ s.issued → token = s.lockToken ∨ s.owned = false
  released : .release ∈ s.replies → s.owned = false
  /-- From the `SET` to the script of `unlock()`. -/
  owns : s.locked = true ∨ .set (.ok true) ∈ s.replies ∨ Held s → Owns s
  free : s.unlocked = true ∨ s.locks = 0 → s.unlocking = 0 → s.owned = false
  written : ∀ v ∈ s.written, isOwn v

/-- A step that makes no token and puts none of the locker's into the key. -/
theorem Keys.mono (h : Keys viewLockTtl s) (htoken : s'.lockToken = s.lockToken)
    (hkey : ∀ v, RedisKey.get s'.now s'.key = some v →
      RedisKey.get s.now s.key = some v ∨ ∃ n, v = some (.other n))
    (hset : ∀ token, .set token ∈ s'.issued → .set token ∈ s.issued ∨ token = s.lockToken)
    (hprolong : ∀ token held, .prolong token held ∈ s'.issued →
      .prolong token held ∈ s.issued ∨ token = s.lockToken)
    (hrelease : ∀ token, .release token ∈ s'.issued →
      .release token ∈ s.issued ∨ token = s.lockToken)
    (hreleased : .release ∈ s'.replies → .release ∈ s.replies ∨ s'.owned = false)
    (howns : s'.locked = true ∨ .set (.ok true) ∈ s'.replies ∨ Held s' → Owns s')
    (hfree : s'.unlocked = true ∨ s'.locks = 0 → s'.unlocking = 0 →
      s'.owned = false ∨ (s.unlocked = true ∨ s.locks = 0) ∧ s.unlocking = 0)
    (hwritten : s'.written = s.written) : Keys viewLockTtl s' := by
  have howned : s.owned = false → s'.owned = false := by
    intro ho
    refine Bool.eq_false_iff.2 fun ho' => ?_
    obtain ⟨n, hn⟩ := owned_iff.1 ho'
    rcases hkey _ hn with hn | ⟨m, hm⟩
    · simp [owned_iff.2 ⟨n, hn⟩] at ho
    · simp at hm
  refine ⟨htoken ▸ h.named, fun hv => ?_, fun n hn => ?_, fun ho => ?_, fun token hm => ?_,
    fun token held hm => ?_, fun token hm => ?_, fun token hm => ?_, fun hm => ?_, howns,
    fun hu hn => ?_, hwritten ▸ h.written⟩
  · rcases hkey _ hv with hv | ⟨m, hm⟩
    · exact h.alive hv
    · simp at hm
  · rw [htoken]
    rcases hkey _ hn with hn | ⟨m, hm⟩
    · exact h.token n hn
    · simp at hm
  · refine h.px (Bool.not_eq_false _ ▸ fun hf => ?_)
    simp [howned hf] at ho
  · rw [htoken]
    exact (hset token hm).elim (h.set token) id
  · rcases hprolong token held hm with hm | rfl
    · exact h.prolongs token held hm
    · exact h.named
  · rw [htoken]
    exact (hprolong token true hm).elim (h.prolong token) id
  · rw [htoken]
    rcases hrelease token hm with hm | rfl
    · exact (h.release token hm).imp id howned
    · exact .inl rfl
  · exact (hreleased hm).elim (fun hm => howned (h.released hm)) id
  · exact (hfree hu hn).elim id fun hu => howned (h.free hu.1 hu.2)

theorem Keys.execSet (h : Keys viewLockTtl s) (hcalls : Calls s) (horder : Order s)
    {token : Option LockToken} {issued : List Command} (hc : s.issued = .set token :: issued) :
    Keys viewLockTtl (exec viewLockTtl { s with issued } (.set token)) := by
  have hmem : .set token ∈ s.issued := by simp [hc]
  have hl := locking_of_issued hmem
  obtain ⟨hunlocked, hlocked, hunlocking, hlocks, n, hn⟩ := hcalls.locking hl
  have htoken := h.set token hmem
  -- nobody has the lock, and no other `SET` is under way
  have hnot : ¬ (s.locked = true ∨ .set (.ok true) ∈ s.replies ∨ Held s) := by
    rintro (hl' | hm | hh)
    · simp [hlocked] at hl'
    · have h1 : 0 < s.replies.countP Reply.isSet := List.countP_pos_iff.2 ⟨_, hm, rfl⟩
      have h2 : 0 < s.issued.countP Command.isSet := List.countP_pos_iff.2 ⟨_, hmem, rfl⟩
      have := hcalls.one
      unfold Sys.locking at this
      omega
    · have := (horder.held hh).1
      omega
  have hback : ∀ {command}, command ∈ issued → command ∈ s.issued := by
    intro command hm
    rw [hc]
    exact List.mem_cons_of_mem _ hm
  have hheld : (.prolongLock true ∈ s.connecting ∨ ∃ token, .prolong token true ∈ issued) →
      Held s := Or.imp id fun ⟨token, hm⟩ => ⟨token, hback hm⟩
  have hnew : ¬ (s.unlocked = true ∨ s.locks = 0) := by
    rintro (hu | hk)
    · simp [hunlocked] at hu
    · omega
  have hrefused : ∀ result, result ≠ .ok true →
      Keys viewLockTtl { s with issued, replies := s.replies ++ [.set result] } := by
    intro result hresult
    refine h.mono rfl (fun v => .inl) (fun _ hm => .inl (hback hm)) (fun _ _ hm => .inl (hback hm))
      (fun _ hm => .inl (hback hm)) (fun hm => .inl (by simpa using hm)) (fun ho => absurd ?_ hnot)
      (fun hu => absurd hu hnew) rfl
    rcases ho with hl' | hm | hh
    · exact .inl hl'
    · exact .inr (.inl (by simpa [hresult.symm] using hm))
    · exact .inr (.inr (hheld hh))
  unfold RedisViewLocker.exec
  simp only []
  rcases hset : RedisKey.setNX s.now token viewLockTtl s.key with e | ⟨key, ok⟩
  · exact hrefused (.error e) nofun
  · have hspec := setNX_spec hset
    rcases ok with _ | _
    · obtain rfl : key = s.key := hspec
      exact hrefused (.ok false) nofun
    · obtain ⟨hpx, rfl⟩ : 0 < viewLockTtl ∧
        key = some { value := token, expiresAt := some (s.now + viewLockTtl) } := hspec
      simp only []
      have hown : token = some (.own n) := htoken.trans hn
      constructor
      · exact h.named
      · intro hv
        simpa [hown] using get_some hv
      · intro m hm
        exact (htoken.symm.trans (get_some hm).symm)
      · exact fun _ => hpx
      · exact fun token' hm => h.set token' (hback hm)
      · exact fun token' held hm => h.prolongs token' held (hback hm)
      · exact fun token' hm => h.prolong token' (hback hm)
      · intro token' hm
        have := unlocking_of_issued (hback hm)
        omega
      · intro hm
        have := unlocking_of_release (s := s) (by simpa using hm)
        omega
      · refine fun _ => ⟨n, hn, fun t ht _ => ?_⟩
        obtain rfl := Option.some.inj ht
        rw [hown]
      · exact fun hu => absurd hu hnew
      · intro v hv
        rcases List.mem_append.1 hv with hv | hv
        · exact h.written v hv
        · rw [List.mem_singleton.1 hv, hown]
          rfl

theorem Keys.execProlong (h : Keys viewLockTtl s) {token : Option LockToken} {held : Bool}
    {issued : List Command} (hc : s.issued = .prolong token held :: issued) :
    Keys viewLockTtl (exec viewLockTtl { s with issued } (.prolong token held)) := by
  have hback : ∀ {command}, command ∈ issued → command ∈ s.issued := by
    intro command hm
    rw [hc]
    exact List.mem_cons_of_mem _ hm
  refine h.mono rfl (fun v hv => .inl (get_prolong hv)) (fun _ hm => .inl (hback hm))
    (fun _ _ hm => .inl (hback hm)) (fun _ hm => .inl (hback hm))
    (fun hm => .inl (by simpa [exec] using hm)) (fun ho => ?_) (fun hu hn => ?_) rfl
  · obtain ⟨n, hn, hkey⟩ := h.owns (ho.imp id (Or.imp (fun hm => by simpa [exec] using hm)
      (Or.imp id fun ⟨token', hm⟩ => ⟨token', hback hm⟩)))
    refine ⟨n, hn, fun t ht hle => ?_⟩
    by_cases hv : RedisKey.get s.now s.key = some token
    · -- the key has the token of the command, which is the one the locker knows
      obtain ⟨m, rfl⟩ : ∃ m, token = some (.own m) := by
        rcases h.prolongs token held (by simp [hc]) with rfl | hm
        · exact absurd hv h.alive
        · exact hm
      obtain rfl : m = n := by simpa [hn] using (h.token m hv).symm
      have hpx := h.px (owned_iff.2 ⟨m, hv⟩)
      obtain ⟨k, hk, hkv, -⟩ := get_eq_some_iff.1 hv
      simp only [exec, SCRIPT_PROLONG_LOCK, if_pos hv] at ht ⊢
      obtain rfl := Option.some.inj ht
      simp [RedisKey.pexpire, hk, hkv, Nat.ne_of_gt hpx]
    · simp only [exec, SCRIPT_PROLONG_LOCK, if_neg hv] at ht ⊢
      exact hkey t ht hle
  · rw [unlocking_exec hc] at hn
    exact .inr ⟨hu, hn⟩

theorem Keys.execRelease (h : Keys viewLockTtl s) (hcalls : Calls s) (horder : Order s)
    {token : Option LockToken} {issued : List Command} (hc : s.issued = .release token :: issued) :
    Keys viewLockTtl (exec viewLockTtl { s with issued } (.release token)) := by
  have hback : ∀ {command}, command ∈ issued → command ∈ s.issued := by
    intro command hm
    rw [hc]
    exact List.mem_cons_of_mem _ hm
  have hunlocking : 0 < s.unlocking := unlocking_of_issued (by rw [hc]; exact List.mem_cons_self)
  have hfree : (exec viewLockTtl { s with issued } (.release token)).owned = false := by
    refine Bool.eq_false_iff.2 fun ho => ?_
    obtain ⟨n, hn⟩ := owned_iff.1 ho
    obtain ⟨hn, hne⟩ := get_release hn
    have ho' : s.owned = true := owned_iff.2 ⟨n, hn⟩
    rcases h.release token (by simp [hc]) with ht | hf
    · exact hne ((h.token n hn).symm.trans ht.symm)
    · simp [ho'] at hf
  refine h.mono rfl (fun v hv => .inl (get_release hv).1) (fun _ hm => .inl (hback hm))
    (fun _ _ hm => .inl (hback hm)) (fun _ hm => .inl (hback hm)) (fun _ => .inr hfree)
    (fun ho => ?_) (fun _ _ => .inl hfree) rfl
  rcases ho with hl | hm | hh
  · have := (hcalls.at_rest hl).2
    omega
  · have := (hcalls.locking (locking_of_set (by simpa [exec] using hm))).2.2.1
    omega
  · have hexec : Order (RedisViewLocker.exec viewLockTtl { s with issued } (.release token)) :=
      horder.exec hc
    exact absurd (by simp [RedisViewLocker.exec]) (hexec.held hh).2.1

theorem Keys.reply (h : Keys viewLockTtl s) (hcalls : Calls s) (horder : Order s) {reply : Reply}
    {replies : List Reply} (hc : s.replies = reply :: replies) :
    Keys viewLockTtl (goOn viewLockTtl { s with replies } reply) := by
  have hback : ∀ {reply'}, reply' ∈ replies → reply' ∈ s.replies := by
    intro reply' hm
    rw [hc]
    exact List.mem_cons_of_mem _ hm
  have hsame : reply ≠ .release → s.unlocking = Sys.unlocking { s with replies } := by
    intro hne
    cases reply with
    | release => exact absurd rfl hne
    | _ => simp [Sys.unlocking, hc, Reply.isRelease]
  rcases reply with ⟨e | _ | _⟩ | result | _
  · refine h.mono rfl (fun v => .inl) (fun _ => .inl) (fun _ _ => .inl) (fun _ => .inl)
      (fun hm => .inl (hback hm)) (fun ho => h.owns (ho.imp id (Or.imp hback id)))
      (fun hu hn => .inr ⟨hu, ?_⟩) rfl
    exact (hsame (by simp)).trans hn
  · refine h.mono rfl (fun v => .inl) (fun _ => .inl) (fun _ _ => .inl) (fun _ => .inl)
      (fun hm => .inl (hback hm)) (fun ho => h.owns (ho.imp id (Or.imp hback id)))
      (fun hu hn => .inr ⟨hu, ?_⟩) rfl
    exact (hsame (by simp)).trans hn
  · refine h.mono rfl (fun v => .inl) (fun _ => .inl) (fun _ _ => .inl) (fun _ => .inl)
      (fun hm => .inl (hback hm)) (fun ho => h.owns (.inr (.inl (by simp [hc]))))
      (fun hu hn => .inr ⟨hu, ?_⟩) rfl
    exact (hsame (by simp)).trans hn
  · simp only [goOn]
    split_ifs
    all_goals
      refine h.mono rfl (fun v => .inl) (fun _ => .inl) (fun _ _ => .inl) (fun _ => .inl)
        (fun hm => .inl (hback hm)) (fun ho => h.owns (ho.imp id (Or.imp hback id)))
        (fun hu hn => .inr ⟨hu, ?_⟩) rfl
      exact (hsame (by simp)).trans hn
  · have hmem : .release ∈ s.replies := by simp [hc]
    have hfree := h.released hmem
    have hunlocking := unlocking_of_release hmem
    constructor
    · exact .inl rfl
    · exact h.alive
    · exact fun n hn => absurd hn (get_ne_of_owned hfree n)
    · exact h.px
    · intro token hm
      have := (hcalls.locking (locking_of_issued hm)).2.2.1
      omega
    · exact h.prolongs
    · exact fun token hm => absurd hmem (horder.held (.inr ⟨token, hm⟩)).2.1
    · exact fun _ _ => .inr hfree
    · exact fun _ => hfree
    · rintro (hl | hm | hh)
      · have := (hcalls.at_rest hl).2
        omega
      · have := (hcalls.locking (locking_of_set (hback hm))).2.2.1
        omega
      · exact absurd hmem (horder.held hh).2.1
    · exact fun _ _ => hfree
    · exact h.written

theorem Keys.tick (h : Keys viewLockTtl s) {ms : ℕ}
    (hst : step viewLockTtl s (.tick ms) = some s') : Keys viewLockTtl s' := by
  obtain rfl := Option.some.inj hst
  refine h.mono rfl (fun v hv => .inl (get_tick hv)) (fun _ => .inl) (fun _ _ => .inl)
    (fun _ => .inl) .inl (fun ho => ?_) (fun hu hn => .inr ⟨hu, hn⟩) rfl
  obtain ⟨n, hn, hkey⟩ := h.owns ho
  refine ⟨n, hn, fun t ht hle => hkey t ht (Int.le_trans ?_ hle)⟩
  exact Int.le_add_of_nonneg_right (Int.natCast_nonneg ms)

theorem Keys.others (h : Keys viewLockTtl s) {key : Option (RedisKey ℕ)}
    (hst : step viewLockTtl s (.others key) = some s') : Keys viewLockTtl s' := by
  simp only [step] at hst
  split_ifs at hst with howned
  obtain rfl := Option.some.inj hst
  refine h.mono rfl (fun v hv => .inr ?_) (fun _ => .inl) (fun _ _ => .inl) (fun _ => .inl) .inl
    (fun ho => ?_) (fun hu hn => .inr ⟨hu, hn⟩) rfl
  · obtain ⟨k, hk, rfl, -⟩ := get_eq_some_iff.1 hv
    obtain ⟨k', -, rfl⟩ := Option.map_eq_some_iff.1 hk
    exact ⟨_, rfl⟩
  · obtain ⟨n, hn, hkey⟩ := h.owns ho
    refine ⟨n, hn, fun t ht hle => absurd (owned_iff.2 ⟨n, ?_⟩) howned⟩
    rw [hkey t ht hle]
    exact get_eq_some_iff.2 ⟨_, rfl, rfl, by simpa using hle⟩

theorem Keys.lock (h : Keys viewLockTtl s) (hcalls : Calls s) (horder : Order s)
    (hseq : Sequential s .lock) (hst : step viewLockTtl s .lock = some s') : Keys viewLockTtl s' := by
  obtain rfl := Option.some.inj hst
  have hnot := horder.not_held hcalls hseq
  obtain ⟨hlast, hunlocking, hlocking⟩ := hseq
  have hfree := h.free hlast hunlocking
  have hlocked := hcalls.not_locked hlast
  constructor
  · exact .inr ⟨_, rfl⟩
  · exact h.alive
  · exact fun n hn => absurd hn (get_ne_of_owned hfree n)
  · exact h.px
  · intro token hm
    have := locking_of_issued (s := s) hm
    omega
  · exact h.prolongs
  · exact fun token hm => absurd (.inr ⟨token, hm⟩) hnot
  · intro token hm
    have := unlocking_of_issued (s := s) hm
    omega
  · exact fun _ => hfree
  · rintro (hl | hm | hh)
    · simp [hlocked] at hl
    · have := locking_of_set (s := s) hm
      omega
    · exact absurd (by simpa [Held] using hh) hnot
  · exact fun _ _ => hfree
  · exact h.written

theorem Keys.unlock (h : Keys viewLockTtl s)
    (hst : step viewLockTtl s .unlock = some s') : Keys viewLockTtl s' := by
  obtain rfl := Option.some.inj hst
  refine h.mono rfl (fun v => .inl) (fun _ => .inl) (fun _ _ => .inl) (fun _ => .inl) .inl
    (fun ho => ?_) (fun hu hn => ?_) rfl
  · rcases ho with hl | hm | hh
    · cases hl
    · exact h.owns (.inr (.inl hm))
    · exact h.owns (.inr (.inr (by simpa [Held, cancelLockProlongation] using hh)))
  · simp [Sys.unlocking, Waiter.isUnlock] at hn

theorem Keys.fire (h : Keys viewLockTtl s) {handle : ℕ}
    (hst : step viewLockTtl s (.fire handle) = some s') : Keys viewLockTtl s' := by
  simp only [step] at hst
  split at hst
  · split_ifs at hst
    obtain rfl := Option.some.inj hst
    refine h.mono rfl (fun v => .inl) (fun _ => .inl) (fun _ _ => .inl) (fun _ => .inl) .inl
      (fun ho => ?_) (fun hu hn => ?_) rfl
    · rcases ho with hl | hm | hh
      · exact h.owns (.inl hl)
      · exact h.owns (.inr (.inl hm))
      · by_cases hl : s.locked = true
        · exact h.owns (.inl hl)
        · exact h.owns (.inr (.inr (by simpa [Held, hl] using hh)))
    · exact .inr ⟨hu, by simpa [Sys.unlocking, Waiter.isUnlock] using hn⟩
  · cases hst

theorem Keys.connect (h : Keys viewLockTtl s)
    (hst : step viewLockTtl s .connect = some s') : Keys viewLockTtl s' := by
  simp only [step] at hst
  split at hst
  · cases hst
  · rename_i call connecting hc
    obtain rfl := Option.some.inj hst
    refine h.mono rfl (fun v => .inl) (fun token hm => ?_) (fun token held hm => ?_)
      (fun token hm => ?_) .inl (fun ho => ?_) (fun hu hn => ?_) rfl
    · refine (List.mem_append.1 hm).imp id fun hm => ?_
      cases call <;> simp [send] at hm
      exact hm
    · refine (List.mem_append.1 hm).imp id fun hm => ?_
      cases call <;> simp [send] at hm
      exact hm.1
    · refine (List.mem_append.1 hm).imp id fun hm => ?_
      cases call <;> simp [send] at hm
      exact hm
    · exact h.owns (ho.imp id (Or.imp id (held_of_connect hc)))
    · rw [unlocking_connect hc] at hn
      exact .inr ⟨hu, hn⟩

theorem Keys.exec (h : Keys viewLockTtl s) (hcalls : Calls s) (horder : Order s)
    (hst : step viewLockTtl s .exec = some s') : Keys viewLockTtl s' := by
  simp only [step] at hst
  split at hst
  · cases hst
  · rename_i command issued hc
    obtain rfl := Option.some.inj hst
    rcases command with token | ⟨token, held⟩ | token
    · exact h.execSet hcalls horder hc
    · exact h.execProlong hc
    · exact h.execRelease hcalls horder hc

theorem Keys.retry (h : Keys viewLockTtl s)
    (hst : step viewLockTtl s .retry = some s') : Keys viewLockTtl s' := by
  simp only [step] at hst
  split at hst
  · cases hst
  · rename_i till delays hc
    split_ifs at hst
    obtain rfl := Option.some.inj hst
    refine h.mono rfl (fun v => .inl) (fun token hm => ?_) (fun token held hm => .inl ?_)
      (fun token hm => .inl ?_) .inl (fun ho => ?_) (fun hu hn => ?_) rfl
    · simpa using hm
    · simpa using hm
    · simpa using hm
    · exact h.owns (ho.imp id (Or.imp id fun hh => by simpa [Held] using hh))
    · rw [unlocking_retry] at hn
      exact .inr ⟨hu, hn⟩

theorem keys_step (h : Keys viewLockTtl s) (hcalls : Calls s) (horder : Order s)
    (hseq : Sequential s a) (hst : step viewLockTtl s a = some s') : Keys viewLockTtl s' := by
  cases a with
  | tick ms => exact h.tick hst
  | others key => exact h.others hst
  | lock => exact h.lock hcalls horder hseq hst
  | unlock => exact h.unlock hst
  | fire handle => exact h.fire hst
  | connect => exact h.connect hst
  | exec => exact h.exec hcalls horder hst
  | reply =>
    simp only [step] at hst
    split at hst
    · cases hst
    · rename_i hc
      exact Option.some.inj hst ▸ h.reply hcalls horder hc
  | retry => exact h.retry hst

/-! ## Release and re-lock -/

structure Inv (viewLockTtl : ℕ) (s : Sys) : Prop where
  calls : Calls s
  order : Order s
  keys : Keys viewLockTtl s

theorem inv_init (h : Init s) : Inv viewLockTtl s := by
  have hkey : ∀ v, RedisKey.get s.now s.key = some v → ∃ n, v = some (.other n) := by
    obtain ⟨now, key, rfl⟩ := h
    intro v hv
    obtain ⟨k, hk, rfl, -⟩ := get_eq_some_iff.1 hv
    obtain ⟨k', -, rfl⟩ := Option.map_eq_some_iff.1 hk
    exact ⟨_, rfl⟩
  have howned : s.owned = false := by
    refine Bool.eq_false_iff.2 fun ho => ?_
    obtain ⟨n, hn⟩ := owned_iff.1 ho
    obtain ⟨m, hm⟩ := hkey _ hn
    simp at hm
  have halive : RedisKey.get s.now s.key ≠ some none := by
    intro hv
    obtain ⟨m, hm⟩ := hkey _ hv
    simp at hm
  have hne := get_ne_of_owned howned
  obtain ⟨now, key, rfl⟩ := h
  refine ⟨?_, ?_, ?_⟩
  · constructor <;> simp [Sys.locking, Sys.unlocking]
  · constructor <;> simp [Held]
  · exact ⟨.inl rfl, halive, fun n hn => absurd hn (hne n), fun ho => absurd ho (by simp [howned]),
      by simp, by simp, by simp, by simp, by simp, by simp [Held], fun _ _ => howned, by simp⟩

theorem inv (h : (machine viewLockTtl).ReachIf Sequential s) : Inv viewLockTtl s :=
  ReachIf.invariant (P := Inv viewLockTtl) (fun _ => inv_init)
    (fun _ _ _ hi hC hst => ⟨calls_step hi.calls hC hst, order_step hi.order hi.calls hC hst,
      keys_step hi.keys hi.calls hi.order hC hst⟩) h

theorem Inv.freed (h : Inv viewLockTtl s) : Freed s := by
  intro hu hn v hv hw
  have hfree := h.keys.free (.inl hu) hn
  have hown := h.keys.written v hw
  rcases v with _ | n | n
  · cases hown
  · exact get_ne_of_owned hfree n hv
  · cases hown

theorem Inv.prolongs (h : Inv viewLockTtl s) : Prolongs viewLockTtl s := by
  intro token issued hc t ht hle
  have hmem : .prolong token true ∈ s.issued := by simp [hc]
  obtain ⟨n, hn, hkey⟩ := h.keys.owns (.inr (.inr (.inr ⟨token, hmem⟩)))
  have hget : RedisKey.get s.now s.key = some token := by
    rw [hkey t ht hle, h.keys.prolong token hmem, hn]
    exact get_eq_some_iff.2 ⟨_, rfl, rfl, by simpa using hle⟩
  simp only [SCRIPT_PROLONG_LOCK, if_pos hget]

/-- In every run in which each `lock()` is called when the previous `unlock()` has resolved and each
`unlock()` when no `lock()` is under way, the key has no token of the locker once the last `unlock()`
has resolved, and `prolongLock()` succeeds between a completed `lock()` and the next `unlock()`. -/
theorem relocks (h : (machine viewLockTtl).ReachIf Sequential s) :
    Freed s ∧ Prolongs viewLockTtl s := ⟨(inv h).freed, (inv h).prolongs⟩

instance (s : Sys) : ∀ a, Decidable (Sequential s a)
  | .lock => inferInstanceAs (Decidable (_ ∧ _ ∧ _))
  | .unlock => inferInstanceAs (Decidable (s.locking = 0))
  | .tick _ | .others _ | .fire _ | .connect | .exec | .reply | .retry =>
    inferInstanceAs (Decidable True)

instance (s : Sys) : ∀ a, Decidable (Alternate s a)
  | .lock => inferInstanceAs (Decidable (_ ∨ _))
  | .tick _ | .others _ | .unlock | .fire _ | .connect | .exec | .reply | .retry =>
    inferInstanceAs (Decidable True)

/-- The locker locks, prolongs the lock, unlocks and, when that has resolved, locks again. -/
def awaited : List Action := [.lock, .connect, .exec, .reply, .tick 60000, .fire 0, .connect, .exec,
  .reply, .unlock, .connect, .exec, .reply, .lock, .connect, .exec, .reply, .tick 60000, .fire 2,
  .connect]

theorem relocks_awaited :
    ∃ s : Sys, s.locks = 2 ∧ s.issued = [.prolong (some (.own 1)) true] ∧ Freed s ∧
      Prolongs 120000 s := by
  obtain ⟨s, hs, hlocks, hissued⟩ : ∃ s, (machine 120000).run {} awaited = some s ∧ s.locks = 2 ∧
      s.issued = [.prolong (some (.own 1)) true] := ⟨_, rfl, rfl, rfl⟩
  have h0 : (machine 120000).ReachIf Sequential {} := .init ⟨0, none, rfl⟩
  exact ⟨s, hlocks, hissued, relocks (h0.run (by decide) hs)⟩

/-- The locker calls `lock()` when the script of its `unlock()` has run and the answer is under way:
that clears the new token, and the next `unlock()` sends none. -/
def forgotten : List Action := [.lock, .connect, .exec, .reply, .unlock, .connect, .exec, .lock,
  .connect, .exec, .reply, .reply, .unlock, .connect, .exec, .reply]

theorem relocks_fails :
    ¬ ∀ (viewLockTtl : ℕ) (s : Sys), (machine viewLockTtl).ReachIf Alternate s →
      Freed s ∧ Prolongs viewLockTtl s := by
  intro hall
  obtain ⟨s, hs, hu, hn, hkey, hw⟩ : ∃ s, (machine 1000).run {} forgotten = some s ∧
      s.unlocked = true ∧ s.unlocking = 0 ∧
      RedisKey.get s.now s.key = some (some (.own 1)) ∧ some (.own 1) ∈ s.written :=
    ⟨_, rfl, rfl, rfl, rfl, by decide⟩
  have h0 : (machine 1000).ReachIf Alternate {} := .init ⟨0, none, rfl⟩
  exact (hall 1000 s (h0.run (by decide) hs)).1 hu hn _ hkey hw

end RedisViewLocker

end NodeCqrs
