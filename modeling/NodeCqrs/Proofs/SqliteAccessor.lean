import NodeCqrs.Proofs.LockCalls
import NodeCqrs.Proofs.LockTurns
import NodeCqrs.Sqlite.Accessor

/-!
# Initialising a connection

Who calls the factory or `initialize` holds the lock (`Fits`), so no two calls do at a time, and
what has succeeded is seen by whoever has the lock next. Who fails releases it, and one of those who
wait, or who come later, can go on to initialise (`initialized_once`).
-/

namespace NodeCqrs

namespace SqliteAccessor

open Machine (ReachIf)

variable {D : Type} {s s' : Sys D} {c c' : ℕ} {connecting : Connecting}
  {initLocker : LockLease.Sys}

/-- What stands in the log in this order. -/
def Logged.Precedes : Logged → Logged → Prop
  | .initialized _, .initializing _ | .dbCreated _, .dbFactory _ => False
  | _, _ => True

/-- The lease that a call has where it stands. -/
def Fits : Option Connecting → Option LockLease → Prop
  | none, none | some .resolved, none => True
  | some .acquire, some lease => lease.name = "" ∧ lease.released = false
  | some .dbFactory, some lease | some .initializing, some lease => lease.name = "" ∧ lease.held
  | some .resolved, some lease | some .rejected, some lease => lease.name = "" ∧ lease.released
  | _, _ => False

/-- The call is past the lock. -/
def Sys.Busy (s : Sys D) (c : ℕ) : Prop :=
  s.calls c = some .dbFactory ∨ s.calls c = some .initializing

structure Inv (s : Sys D) : Prop where
  locks : LockCalls.Inv { leases := s.initLocker }
  fits : ∀ c, Fits (s.calls c) (s.initLocker.leases c)
  busy : ∀ c, s.Busy c → s.initialized = false
  creating : ∀ c, s.calls c = some .dbFactory → s.db = none
  created : ∀ c, .dbCreated c ∈ s.log → s.db.isSome
  initialized : s.initialized ↔ ∃ c, .initialized c ∈ s.log
  resolved : ∀ c, s.calls c = some .resolved → s.initialized
  ordered : s.log.Pairwise Logged.Precedes

theorem inv_init (db : Option D) : Inv { db } where
  locks := LockCalls.inv_of_reach (.init rfl)
  fits c := trivial
  busy c h := by rcases h with h | h <;> cases h
  creating c h := by cases h
  created c h := by cases h
  initialized := by simp
  resolved c h := by cases h
  ordered := List.Pairwise.nil

theorem leases_acquire {l l' : LockLease.Sys} (h : LockLease.step l (.acquire c "") = some l') :
    ∃ awaits, l'.leases = Function.update l.leases c (some { name := "", awaits }) := by
  simp only [LockLease.step] at h
  split at h
  · cases h
  · obtain rfl := Option.some.inj h
    exact ⟨_, rfl⟩

theorem leases_resume {l l' : LockLease.Sys} (h : LockLease.step l (.resume c) = some l') :
    ∃ lease awaits, l.leases c = some lease ∧ lease.held = false
      ∧ l'.leases = Function.update l.leases c (some { lease with awaits }) := by
  obtain ⟨lease, hc, h⟩ := Option.bind_eq_some_iff.1 h
  obtain ⟨⟨lock, awaits⟩, hr, rfl⟩ := Option.map_eq_some_iff.1 h
  have hne := Lock.resume_ne_acquired hr
  exact ⟨lease, awaits, hc, by simp [LockLease.held, hne], rfl⟩

theorem leases_release {l l' : LockLease.Sys} (h : LockLease.step l (.release c) = some l') :
    ∃ lease, l.leases c = some lease
      ∧ l'.leases = Function.update l.leases c (some { lease with released := true }) := by
  obtain ⟨lease, hc, h⟩ := Option.bind_eq_some_iff.1 h
  split_ifs at h
  obtain rfl := Option.some.inj h
  exact ⟨lease, hc, rfl⟩

theorem calls_set (s : Sys D) (c c' : ℕ) (connecting : Connecting) :
    (s.set c connecting).calls c' = if c' = c then some connecting else s.calls c' := by
  by_cases h : c' = c <;> simp [Sys.set, h]

/-- The locker's steps keep what is known of all its leases. -/
theorem locks_step {l l' : LockLease.Sys} {a : LockLease.Action}
    (h : LockCalls.Inv { leases := l }) (hst : LockLease.step l a = some l') :
    LockCalls.Inv { leases := l' } :=
  LockCalls.inv_step (a := .lease a) h (by simp [LockCalls.step, hst])

theorem Inv.holds_of_acquired (h : Inv s) (hc : s.calls c = some .acquire) (hh : s.holds c) :
    s.initLocker.Holds c "" := by
  have hf := h.fits c
  rcases hl : s.initLocker.leases c with _ | lease
  · simp [Sys.holds, hl] at hh
  · rw [hc, hl] at hf
    exact ⟨lease, hl, by simpa [Sys.holds, hl] using hh, hf.1⟩

theorem Inv.holds_of_busy (h : Inv s) (hb : s.Busy c) : s.initLocker.Holds c "" := by
  have hf := h.fits c
  rcases hl : s.initLocker.leases c with _ | lease <;> rcases hb with hb | hb <;>
    rw [hb, hl] at hf
  · cases hf
  · cases hf
  · exact ⟨lease, hl, hf.2, hf.1⟩
  · exact ⟨lease, hl, hf.2, hf.1⟩

/-- What is known of the other calls while one has the lock, whatever it has done. -/
structure Others (s : Sys D) (c : ℕ) : Prop where
  locks : LockCalls.Inv { leases := s.initLocker }
  fits : ∀ c' ≠ c, Fits (s.calls c') (s.initLocker.leases c')
  idle : ∀ c' ≠ c, ¬ s.Busy c'
  created : ∀ c, .dbCreated c ∈ s.log → s.db.isSome
  initialized : s.initialized ↔ ∃ c, .initialized c ∈ s.log
  resolved : ∀ c' ≠ c, s.calls c' = some .resolved → s.initialized
  ordered : s.log.Pairwise Logged.Precedes

theorem Inv.others (h : Inv s) (hc : s.initLocker.Holds c "") : Others s c :=
  ⟨h.locks, fun c' _ => h.fits c', fun c' hne hb =>
    hne (h.locks.leased.one c' c "" (h.holds_of_busy hb) hc), h.created, h.initialized,
    fun c' _ => h.resolved c', h.ordered⟩

/-- The call that has the lock calls the factory or `initialize`. -/
theorem Others.set (h : Others s c) (hc : s.initLocker.Holds c "") (hi : s.initialized = false)
    (hp : connecting = .dbFactory ∧ s.db = none ∨ connecting = .initializing) :
    Inv (s.set c connecting) := by
  obtain ⟨lease, hl, hheld, hname⟩ := hc
  refine ⟨h.locks, fun c' => ?_, fun c' _ => hi, fun c' hc' => ?_, h.created, h.initialized,
    fun c' hc' => ?_, h.ordered⟩
  · rw [calls_set]
    split_ifs with hcc
    · subst hcc
      show Fits _ (s.initLocker.leases c')
      rw [hl]
      rcases hp with ⟨rfl, -⟩ | rfl <;> exact ⟨hname, hheld⟩
    · exact h.fits c' hcc
  · rw [calls_set] at hc'
    split_ifs at hc' with hcc
    · rcases hp with ⟨-, hdb⟩ | rfl
      · exact hdb
      · cases hc'
    · exact absurd (.inl hc') (h.idle c' hcc)
  · rw [calls_set] at hc'
    split_ifs at hc' with hcc
    · rcases hp with ⟨rfl, -⟩ | rfl <;> cases hc'
    · exact h.resolved c' hcc hc'

/-- It releases the lock and settles. -/
theorem Others.settle (h : Others s c) (hc : s.initLocker.Holds c "")
    (hp : connecting = .resolved ∧ s.initialized ∨ connecting = .rejected)
    (hst : s.settle c connecting = some s') : Inv s' := by
  obtain ⟨initLocker, hl, rfl⟩ := Option.map_eq_some_iff.1 hst
  obtain ⟨lease, hlease, hleases⟩ := leases_release hl
  obtain ⟨lease', hlease', hheld, hname⟩ := hc
  obtain rfl : lease = lease' := Option.some.inj (hlease.symm.trans hlease')
  have hcalls : ∀ c', ({ s with initLocker }.set c connecting).calls c'
      = if c' = c then some connecting else s.calls c' := fun c' => calls_set _ c c' connecting
  have hidle : ∀ c', ¬ ({ s with initLocker }.set c connecting).Busy c' := by
    intro c' hb
    unfold Sys.Busy at hb
    rw [hcalls] at hb
    split_ifs at hb with hcc
    · rcases hp with ⟨rfl, -⟩ | rfl <;> rcases hb with hb | hb <;> cases hb
    · exact h.idle c' hcc hb
  refine ⟨locks_step h.locks hl, fun c' => ?_, fun c' hb => absurd hb (hidle c'),
    fun c' hb => absurd (.inl hb) (hidle c'), h.created, h.initialized, fun c' hc' => ?_, h.ordered⟩
  · rw [hcalls]
    show Fits _ (initLocker.leases c')
    rw [hleases]
    split_ifs with hcc
    · subst hcc
      rw [Function.update_self]
      rcases hp with ⟨rfl, -⟩ | rfl <;> exact ⟨hname, rfl⟩
    · rw [Function.update_of_ne hcc]
      exact h.fits c' hcc
  · rw [hcalls] at hc'
    split_ifs at hc' with hcc
    · rcases hp with ⟨-, hi⟩ | rfl
      · exact hi
      · cases hc'
    · exact h.resolved c' hcc hc'

theorem ordered_logs {logged : Logged} (h : s.log.Pairwise Logged.Precedes)
    (hp : ∀ x ∈ s.log, x.Precedes logged) : (s.logs logged).log.Pairwise Logged.Precedes :=
  List.pairwise_append.2 ⟨h, List.pairwise_singleton _ _, by simpa using hp⟩

theorem Others.logs (h : Others s c) {logged : Logged}
    (hl : logged = .dbFactory c ∨ logged = .initializing c)
    (hp : ∀ x ∈ s.log, x.Precedes logged) : Others (s.logs logged) c := by
  refine ⟨h.locks, h.fits, h.idle, fun c' hc' => h.created c' ?_, ?_, h.resolved,
    ordered_logs h.ordered hp⟩
  · rcases hl with rfl | rfl <;> simpa [Sys.logs] using hc'
  · rcases hl with rfl | rfl <;> simpa [Sys.logs] using h.initialized

theorem Others.callInitialize (h : Others s c) (hc : s.initLocker.Holds c "")
    (hi : s.initialized = false) : Inv (s.callInitialize c) := by
  refine (h.logs (.inr rfl) fun x hx => ?_).set hc hi (.inr rfl)
  cases x with
  | initialized c' => exact absurd (h.initialized.2 ⟨c', hx⟩) (by simp [hi])
  | dbFactory | dbCreated | initializing => trivial

/-- A call that has the lock goes on. -/
theorem Inv.connect (h : Inv s) (hc : s.initLocker.Holds c "") (hst : s.connect c = some s') :
    Inv s' := by
  have ho := h.others hc
  unfold Sys.connect at hst
  split_ifs at hst with hi
  · exact ho.settle hc (.inl ⟨rfl, hi⟩) hst
  have hfalse : s.initialized = false := by simpa using hi
  split at hst <;> obtain rfl := Option.some.inj hst
  · next hdb =>
    refine (ho.logs (.inl rfl) fun x hx => ?_).set hc hfalse (.inl ⟨rfl, hdb⟩)
    cases x with
    | dbCreated c' => exact absurd (h.created c' hx) (by simp [hdb])
    | dbFactory | initializing | initialized => trivial
  · exact ho.callInitialize hc hfalse

theorem Inv.lease_of_unused (h : Inv s) (hc : s.calls c = none) :
    s.initLocker.leases c = none := by
  have hf := h.fits c
  rw [hc] at hf
  rcases hl : s.initLocker.leases c with _ | lease
  · rfl
  · rw [hl] at hf
    cases hf

/-- A new call waits for the lock, or returns at once. -/
theorem Inv.call (h : Inv s) (hl : LockCalls.Inv { leases := initLocker })
    (hleases : ∀ c' ≠ c, initLocker.leases c' = s.initLocker.leases c')
    (hp : connecting = .acquire ∨ connecting = .resolved ∧ s.initialized)
    (hfits : Fits (some connecting) (initLocker.leases c)) :
    Inv ({ s with initLocker }.set c connecting) := by
  have hcalls : ∀ c', ({ s with initLocker }.set c connecting).calls c'
      = if c' = c then some connecting else s.calls c' := fun c' => calls_set _ c c' connecting
  have hsame : ∀ c' p, p = .dbFactory ∨ p = .initializing →
      ({ s with initLocker }.set c connecting).calls c' = some p → s.calls c' = some p := by
    intro c' p hpp hc'
    rw [hcalls] at hc'
    split_ifs at hc' with hcc
    · obtain rfl := Option.some.inj hc'
      rcases hp with rfl | ⟨rfl, -⟩ <;> rcases hpp with hpp | hpp <;> cases hpp
    · exact hc'
  refine ⟨hl, fun c' => ?_, fun c' hb => h.busy c' ?_, fun c' hb => h.creating c' ?_, h.created,
    h.initialized, fun c' hc' => ?_, h.ordered⟩
  · rw [hcalls]
    split_ifs with hcc
    · exact hcc ▸ hfits
    · show Fits _ (initLocker.leases c')
      rw [hleases c' hcc]
      exact h.fits c'
  · exact hb.imp (hsame c' _ (.inl rfl)) (hsame c' _ (.inr rfl))
  · exact hsame c' _ (.inl rfl) hb
  · rw [hcalls] at hc'
    split_ifs at hc' with hcc
    · obtain rfl := Option.some.inj hc'
      rcases hp with hp | ⟨-, hi⟩
      · cases hp
      · exact hi
    · exact h.resolved c' hc'

/-- A lease that is not held may wait on, or be granted the lock. -/
theorem Fits.resume {lease : LockLease} {connecting : Option Connecting}
    (h : Fits connecting (some lease)) (hheld : lease.held = false) (awaits : Acquiring) :
    Fits connecting (some { lease with awaits }) := by
  rcases connecting with _ | _ | _ | _ | _ | _
  · cases h
  · exact h
  · exact absurd h.2 (by simp [hheld])
  · exact absurd h.2 (by simp [hheld])
  · exact h
  · exact h

theorem inv_step {a : Action D} (h : Inv s) (hst : step s a = some s') : Inv s' := by
  cases a with
  | assertConnection c =>
    simp only [step] at hst
    split_ifs at hst with hc hi
    · obtain rfl := Option.some.inj hst
      have hnone : s.calls c = none := by simpa using hc
      refine h.call h.locks (fun _ _ => rfl) (.inr ⟨rfl, hi⟩) ?_
      rw [h.lease_of_unused hnone]
      trivial
    · obtain ⟨initLocker, hl, rfl⟩ := Option.map_eq_some_iff.1 hst
      obtain ⟨awaits, hleases⟩ := leases_acquire hl
      refine h.call (locks_step h.locks hl) (fun c' hcc => ?_) (.inl rfl) ?_
      · rw [hleases, Function.update_of_ne hcc]
      · rw [hleases, Function.update_self]
        exact ⟨rfl, rfl⟩
  | resume c =>
    obtain ⟨initLocker, hl, rfl⟩ := Option.map_eq_some_iff.1 hst
    obtain ⟨lease, awaits, hlease, hheld, hleases⟩ := leases_resume hl
    refine ⟨locks_step h.locks hl, fun c' => ?_, h.busy, h.creating, h.created, h.initialized,
      h.resolved, h.ordered⟩
    have hf := h.fits c'
    show Fits (s.calls c') (initLocker.leases c')
    rw [hleases]
    by_cases hcc : c' = c
    · subst hcc
      rw [hlease] at hf
      rw [Function.update_self]
      exact hf.resume hheld awaits
    · rw [Function.update_of_ne hcc]
      exact hf
  | acquired c =>
    simp only [step] at hst
    split_ifs at hst with hc
    exact h.connect (h.holds_of_acquired hc.1 hc.2) hst
  | dbFactory c db =>
    simp only [step] at hst
    split_ifs at hst with hc
    have hholds := h.holds_of_busy (.inl hc)
    have ho := h.others hholds
    cases db with
    | none => exact ho.settle hholds (.inr rfl) hst
    | some db =>
      obtain rfl := Option.some.inj hst
      have hnew : Others ({ s with db := some db }.logs (.dbCreated c)) c :=
        ⟨ho.locks, ho.fits, ho.idle, fun _ _ => rfl, by simpa [Sys.logs] using ho.initialized,
          ho.resolved, ordered_logs ho.ordered fun x _ => by cases x <;> trivial⟩
      exact hnew.callInitialize hholds (h.busy c (.inl hc))
  | initialized c succeeds =>
    simp only [step] at hst
    split_ifs at hst with hc hs
    · have hholds := h.holds_of_busy (.inr hc)
      have ho := h.others hholds
      have hnew : Others ({ s with initialized := true }.logs (.initialized c)) c :=
        ⟨ho.locks, ho.fits, ho.idle, fun c' hc' => ho.created c' (by simpa [Sys.logs] using hc'),
          iff_of_true rfl ⟨c, by simp [Sys.logs]⟩, fun _ _ _ => rfl,
          ordered_logs ho.ordered fun x _ => by cases x <;> trivial⟩
      exact hnew.settle hholds (.inl ⟨rfl, rfl⟩) hst
    · have hholds := h.holds_of_busy (.inr hc)
      exact (h.others hholds).settle hholds (.inr rfl) hst

theorem inv_of_reach (h : (machine D).Reach s) : Inv s := by
  refine ReachIf.invariant (P := Inv) (fun s (h0 : ∃ db, s = { db }) => ?_)
    (fun _ _ _ hi _ hst => inv_step hi hst) h
  obtain ⟨db, rfl⟩ := h0
  exact inv_init db

/-! ## What is left to be done -/

/-- The calls made so far can initialise the database. -/
def Sys.Initialisable (s : Sys D) : Prop :=
  ∃ l s', (∀ a ∈ l, ∀ c, a ≠ .assertConnection c) ∧ (machine D).run s l = some s'
    ∧ s'.initialized

theorem Sys.Initialisable.step {a : Action D} (hst : step s a = some s')
    (ha : ∀ c, a ≠ .assertConnection c) (h : s'.Initialisable) : s.Initialisable := by
  obtain ⟨l, t, hl, hrun, ht⟩ := h
  refine ⟨a :: l, t, fun a' ha' => ?_, ?_, ht⟩
  · rcases List.mem_cons.1 ha' with rfl | ha'
    · exact ha
    · exact hl a' ha'
  · rw [Machine.run_cons, show (machine D).step s a = some s' from hst]
    exact hrun

theorem settle_of_holds (hc : s.initLocker.Holds c "") (connecting : Connecting) :
    ∃ s', s.settle c connecting = some s' ∧ s'.initialized = s.initialized := by
  obtain ⟨lease, hl, hheld, -⟩ := hc
  obtain ⟨initLocker, hst⟩ : ∃ initLocker,
      LockLease.step s.initLocker (.release c) = some initLocker := by
    rw [LockLease.step, hl, Option.bind_some, if_pos hheld]
    exact ⟨_, rfl⟩
  refine ⟨{ s with initLocker }.set c connecting, ?_, rfl⟩
  rw [Sys.settle, hst, Option.map_some]

theorem Inv.initialisable_of_initializing (h : Inv s) (hc : s.calls c = some .initializing) :
    s.Initialisable := by
  have hholds := h.holds_of_busy (.inr hc)
  obtain ⟨s', hs', hi⟩ := settle_of_holds
    (s := { s with initialized := true }.logs (.initialized c)) hholds .resolved
  have hst : step s (.initialized c true) = some s' := by simp [SqliteAccessor.step, hc, hs']
  exact .step hst (by simp) ⟨[], s', by simp, rfl, hi⟩

theorem Inv.initialisable_of_dbFactory (h : Inv s) (db : D) (hc : s.calls c = some .dbFactory) :
    s.Initialisable := by
  have hst : step s (.dbFactory c (some db))
      = some (({ s with db := some db }.logs (.dbCreated c)).callInitialize c) := by
    simp [SqliteAccessor.step, hc]
  refine .step hst (by simp) ?_
  exact (inv_step h hst).initialisable_of_initializing (c := c)
    (by simp [Sys.callInitialize, calls_set])

/-- Whoever has the lock can initialise, unless it is done. -/
theorem Inv.initialisable_of_holds (h : Inv s) (db : D) (hc : s.initLocker.Holds c "") :
    s.Initialisable := by
  by_cases hi : s.initialized
  · exact ⟨[], s, by simp, rfl, hi⟩
  obtain ⟨lease, hl, hheld, -⟩ := hc
  have hf := h.fits c
  rw [hl] at hf
  rcases hcalls : s.calls c with _ | _ | _ | _ | _ | _ <;> rw [hcalls] at hf
  · cases hf
  · have hst : step s (.acquired c) = s.connect c := by
      simp [SqliteAccessor.step, hcalls, Sys.holds, hl, hheld]
    rcases hdb : s.db with _ | db'
    · have hconnect : s.connect c = some ((s.logs (.dbFactory c)).set c .dbFactory) := by
        simp [Sys.connect, hi, hdb]
      refine .step (hst.trans hconnect) (by simp) ?_
      exact (inv_step h (hst.trans hconnect)).initialisable_of_dbFactory (c := c) db
        (by simp [calls_set])
    · have hconnect : s.connect c = some (s.callInitialize c) := by simp [Sys.connect, hi, hdb]
      refine .step (hst.trans hconnect) (by simp) ?_
      exact (inv_step h (hst.trans hconnect)).initialisable_of_initializing (c := c)
        (by simp [Sys.callInitialize, calls_set])
  · exact h.initialisable_of_dbFactory db hcalls
  · exact h.initialisable_of_initializing hcalls
  · simp [LockLease.held, hf.2] at hheld
  · simp [LockLease.held, hf.2] at hheld

theorem granted_of_resume {l : LockLease.Sys} (h : LockCalls.Inv { leases := l }) {lock : Lock}
    {lease : LockLease} (hc : l.leases c = some lease) (hname : lease.name = "")
    (hr : l.lock.resume "" lease.awaits = some (lock, .acquired)) :
    ∃ l', LockLease.step l (.resume c) = some l' ∧ l'.Holds c "" := by
  have hne := Lock.resume_ne_acquired hr
  have hreleased : lease.released = false := by
    by_contra hreleased
    exact hne (h.leased.granted c lease hc (by simpa using hreleased))
  have hst : LockLease.step l (.resume c)
      = some ({ l with lock }.set c { lease with awaits := .acquired }) := by
    rw [LockLease.step, hc, Option.bind_some, hname, hr]
    rfl
  exact ⟨_, hst, { lease with awaits := .acquired }, by simp [LockLease.leases_set],
    by simp [LockLease.held, hreleased], hname⟩

/-- With the lock free, one of those who wait for it goes on and is granted it. -/
theorem next_granted {l : LockLease.Sys} (h : LockCalls.Inv { leases := l })
    (hfree : ∀ c name, ¬ l.Holds c name)
    (hname : ∀ c lease, l.leases c = some lease → lease.name = "") {lease : LockLease}
    (hc : l.leases c = some lease) (hwaits : lease.awaits ≠ .acquired) :
    ∃ c' l', LockLease.step l (.resume c') = some l' ∧ l'.Holds c' "" := by
  have hblocks : ∀ d, ¬ l.lock.Blocks d := fun d hd =>
    let ⟨c, name, hc⟩ := h.holds_of_blocks hd
    hfree c name hc
  have hglobal : l.lock.globalLock = none :=
    Option.eq_none_iff_forall_ne_some.2 fun d hd => hblocks d (.inl hd)
  have hnamed : l.lock.namedLocks = [] :=
    List.eq_nil_iff_forall_not_mem.2 fun p hp => hblocks p.2 (.inr (List.mem_map_of_mem hp))
  -- who waits for a lock that blocked it finds none
  have hblocked : ∀ c lease d, l.leases c = some lease → lease.awaits = .blockingLock d →
      ∃ c' l', LockLease.step l (.resume c') = some l' ∧ l'.Holds c' "" := by
    intro c lease d hc ha
    have hd := h.guarded.awaited c lease hc
    rw [ha] at hd
    have hr : l.lock.resume "" lease.awaits = some (l.lock.take "", .acquired) := by
      rw [ha, Lock.resume, if_pos (hd.resolve_left (hblocks d)),
        Lock.acquireBlocked_take hnamed hglobal]
    exact ⟨c, granted_of_resume h hc (hname c lease hc) hr⟩
  rcases hguard : l.lock.globalLockAcquiringLock with _ | d
  · rcases ha : lease.awaits with d | d | -
    · have hd := h.guarded.awaited c lease hc
      rw [ha] at hd
      have hmem : d ∈ l.lock.resolved := hd.resolve_left (by simp [hguard])
      have hr : l.lock.resume "" lease.awaits = some (l.lock.acquire "") := by
        rw [ha, Lock.resume, if_pos hmem]
      rw [Lock.acquire_take hnamed hguard hglobal] at hr
      exact ⟨c, granted_of_resume h hc (hname c lease hc) hr⟩
    · exact hblocked c lease d hc ha
    · exact absurd ha hwaits
  · obtain ⟨c', lease', d', hc', -, ha⟩ := h.guarded.acquiring d hguard
    exact hblocked c' lease' d' hc' ha

theorem Fits.name {lease : LockLease} {connecting : Option Connecting}
    (h : Fits connecting (some lease)) : lease.name = "" := by
  rcases connecting with _ | _ | _ | _ | _ | _
  · cases h
  all_goals exact h.1

/-- As long as a call waits, the database is or can be initialised. -/
theorem Inv.initialisable_of_waiting (h : Inv s) (db : D) (hc : s.calls c = some .acquire) :
    s.Initialisable := by
  by_cases hholds : ∃ c name, s.initLocker.Holds c name
  · obtain ⟨c', name, lease, hl, hheld, hname⟩ := hholds
    have hf := h.fits c'
    rw [hl] at hf
    exact h.initialisable_of_holds db (c := c') ⟨lease, hl, hheld, hf.name⟩
  · have hfree : ∀ c name, ¬ s.initLocker.Holds c name := fun c name hc => hholds ⟨c, name, hc⟩
    have hf := h.fits c
    rw [hc] at hf
    rcases hl : s.initLocker.leases c with _ | lease <;> rw [hl] at hf
    · cases hf
    have hwaits : lease.awaits ≠ .acquired := fun ha =>
      hfree c "" ⟨lease, hl, by simp [LockLease.held, ha, hf.2], hf.1⟩
    obtain ⟨c', initLocker, hst, hholds'⟩ := next_granted h.locks hfree
      (fun c' lease' hl' => Fits.name (hl' ▸ h.fits c')) hl hwaits
    have hstep : step s (.resume c') = some { s with initLocker } := by
      simp [SqliteAccessor.step, hst]
    exact .step hstep (by simp) ((inv_step h hstep).initialisable_of_holds db hholds')

/-- In any interleaving `initialize` runs once at a time and not again once it has succeeded, the
factory is not called once it has returned a database, a call resolves only when `initialize` has
succeeded, and one that rejects does not have the lock; the calls that wait, and one that comes, can
initialise. -/
theorem initialized_once (h : (machine D).Reach s) (db : D) :
    (∀ c c', s.calls c = some .initializing → s.calls c' = some .initializing → c = c')
    ∧ s.log.Pairwise Logged.Precedes
    ∧ (∀ c, s.calls c = some .resolved → ∃ c', .initialized c' ∈ s.log)
    ∧ (∀ c, s.calls c = some .rejected → ¬ s.initLocker.Holds c "")
    ∧ (∀ c, s.calls c = some .acquire → s.Initialisable)
    ∧ ∀ c, s.calls c = none → ∃ s', step s (.assertConnection c) = some s' ∧ s'.Initialisable := by
  have hi := inv_of_reach h
  refine ⟨fun c c' hc hc' => ?_, hi.ordered, fun c hc => hi.initialized.1 (hi.resolved c hc),
    fun c hc hholds => ?_, fun c hc => hi.initialisable_of_waiting db hc, fun c hc => ?_⟩
  · exact hi.locks.leased.one c c' "" (hi.holds_of_busy (.inr hc)) (hi.holds_of_busy (.inr hc'))
  · obtain ⟨lease, hl, hheld, -⟩ := hholds
    have hf := hi.fits c
    rw [hc, hl] at hf
    simp [LockLease.held, hf.2] at hheld
  · by_cases hinit : s.initialized
    · exact ⟨s.set c .resolved, by simp [step, hc, hinit], [], _, by simp, rfl, hinit⟩
    · have hl := hi.lease_of_unused hc
      obtain ⟨initLocker, hst⟩ : ∃ initLocker,
          LockLease.step s.initLocker (.acquire c "") = some initLocker := by
        rw [LockLease.step, hl]
        exact ⟨_, rfl⟩
      have hstep : step s (.assertConnection c) = some ({ s with initLocker }.set c .acquire) := by
        simp [step, hc, hinit, hst]
      have hinv := inv_step hi hstep
      exact ⟨_, hstep, hinv.initialisable_of_waiting (c := c) db (by simp [calls_set])⟩

section Runs

/-- The factory fails for the first call, and `initialize` for the second one; a third one comes and
initialises. -/
theorem initialized_once_third : ∃ s, (machine ℕ).run { db := none } [.assertConnection 0,
      .assertConnection 1, .acquired 0, .dbFactory 0 none, .resume 1, .acquired 1,
      .dbFactory 1 (some 7), .assertConnection 2, .initialized 1 false, .resume 2, .acquired 2,
      .initialized 2 true] = some s
    ∧ s.log = [.dbFactory 0, .dbFactory 1, .dbCreated 1, .initializing 1, .initializing 2,
      .initialized 2]
    ∧ s.log.Pairwise Logged.Precedes := by
  obtain ⟨s, hs, hlog⟩ : ∃ s, (machine ℕ).run { db := none } [.assertConnection 0,
      .assertConnection 1, .acquired 0, .dbFactory 0 none, .resume 1, .acquired 1,
      .dbFactory 1 (some 7), .assertConnection 2, .initialized 1 false, .resume 2, .acquired 2,
      .initialized 2 true] = some s
      ∧ s.log = [.dbFactory 0, .dbFactory 1, .dbCreated 1, .initializing 1, .initializing 2,
        .initialized 2] := ⟨_, rfl, rfl⟩
  exact ⟨s, hs, hlog, (initialized_once (Machine.reach_of_run ⟨none, rfl⟩ hs) 7).2.1⟩

end Runs

end SqliteAccessor

end NodeCqrs
