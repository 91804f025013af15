import NodeCqrs.Sqlite.ViewLocker
import NodeCqrs.Utils.Timers

/-!
# The timers of `SqliteViewLocker`

The lockers with the timers that call `prolongLock()`. `lock()` arms one when it has the lock and
`unlock()` clears it; `prolongLock()` does neither.
-/

namespace NodeCqrs

namespace SqliteViewLocker

variable {E : Type}

/-- The lockers, the timers and each locker's `#lockProlongationTimeout`; and, to state how long a
lock is held, when each locker last obtained it. -/
structure Timed (E : Type) where
  sys : Sys E
  timers : Timers := {}
  lockProlongationTimeout : ℕ → Option ℕ := fun _ => none
  lockedAt : ℕ → ℤ := fun _ => 0

/-- `act` is a step of the lockers but the start of `prolongLock()`, which is what a timer does when
it fires. -/
inductive TimedAction
  | act (a : Action)
  | fire (handle : ℕ)
deriving DecidableEq, Repr

variable (viewLockTtl : ℕ → ℤ)

/-- `scheduleLockProlongation`, at the end of `lock()`. -/
def scheduleLockProlongation (s : Timed E) (i : ℕ) : Timed E :=
  { s with
    timers := s.timers.setTimeout i (s.sys.now + halfTimeout (viewLockTtl i))
    lockProlongationTimeout :=
      Function.update s.lockProlongationTimeout i (some s.timers.nextHandle)
    lockedAt := Function.update s.lockedAt i s.sys.now }

def cancelLockProlongation (s : Timed E) (i : ℕ) : Timed E :=
  { s with timers := s.timers.clearTimeout (s.lockProlongationTimeout i) }

def timedStep (s : Timed E) : TimedAction → Option (Timed E)
  | .act (.prolongLock _) => none
  | .act (.upsert i) => (step viewLockTtl s.sys (.upsert i)).map fun sys =>
      if (upsertTableLock (s.sys.now + viewLockTtl i) s.sys.row).2 = 1 then
        scheduleLockProlongation viewLockTtl { s with sys } i
      else { s with sys }
  | .act (.unlock i) => (step viewLockTtl s.sys (.unlock i)).map fun sys =>
      cancelLockProlongation { s with sys } i
  | .act a => (step viewLockTtl s.sys a).map fun sys => { s with sys }
  | .fire handle => (s.timers.armed handle).bind fun timer =>
      if timer.due ≤ s.sys.now then
        (step viewLockTtl s.sys (.prolongLock timer.owner)).map fun sys =>
          { s with sys, timers := s.timers.clear handle }
      else none

def timedMachine : Machine (Timed E) TimedAction where
  Init s := Init s.sys ∧ (∀ h, s.timers.armed h = none) ∧ ∀ i, s.lockProlongationTimeout i = none
  step := timedStep viewLockTtl

/-- Timers fire when they are due, and `prolongLock()` runs its query at once. -/
def OnTime (s : Timed E) : TimedAction → Prop
  | .act (.tick ms) => (∀ h timer, s.timers.armed h = some timer → s.sys.now + ms ≤ timer.due) ∧
      ∀ i, (s.sys.lockers i).prolonging = 0
  | _ => True

end SqliteViewLocker

end NodeCqrs
