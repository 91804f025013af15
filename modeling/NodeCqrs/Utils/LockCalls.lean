import NodeCqrs.Utils.LockLease

/-!
# Calls of one `Lock`

Any number of calls of `acquire`, with their leases, and of `waitForUnlock`. A call that waits goes
on in a step of its own once its `Deferred` is resolved, in any order.
-/

namespace NodeCqrs

/-- A call of `waitForUnlock` with what it awaits; it has returned if that is nothing. -/
structure UnlockWait where
  name : String
  awaits : Option ℕ
deriving DecidableEq, Repr

namespace LockCalls

structure Sys where
  leases : LockLease.Sys := {}
  waits : ℕ → Option UnlockWait := fun _ => none

inductive Action
  | lease (action : LockLease.Action)
  | waitForUnlock (c : ℕ) (name : String)
  | resume (c : ℕ)
deriving DecidableEq, Repr

def Sys.lock (s : Sys) : Lock := s.leases.lock

/-- `waitForUnlock` up to its next wait. -/
def Sys.waitForUnlock (s : Sys) (c : ℕ) (name : String) : Sys :=
  { s with
    waits := Function.update s.waits c (some { name, awaits := s.lock.getAnyBlockingLock name }) }

def step (s : Sys) : Action → Option Sys
  | .lease action => (LockLease.step s.leases action).map fun leases => { s with leases }
  | .waitForUnlock c name => if (s.waits c).isNone then some (s.waitForUnlock c name) else none
  | .resume c =>
    match s.waits c with
    | some { name, awaits := some deferred } =>
      if deferred ∈ s.lock.resolved then some (s.waitForUnlock c name) else none
    | _ => none

def machine : Machine Sys Action := ⟨(· = {}), step⟩

/-- The `Deferred` a call of `acquire` or of `waitForUnlock` is suspended on. -/
inductive Sys.Awaits (s : Sys) (deferred : ℕ) : Prop
  | acquiring (c : ℕ) (lease : LockLease) (h : s.leases.leases c = some lease)
      (hd : lease.awaits = .globalLockAcquiringLock deferred)
  | blocked (c : ℕ) (lease : LockLease) (h : s.leases.leases c = some lease)
      (hd : lease.awaits = .blockingLock deferred)
  | unlock (c : ℕ) (wait : UnlockWait) (h : s.waits c = some wait) (hd : wait.awaits = some deferred)

end LockCalls

/-- The lock has the `Deferred` now. -/
def Lock.Installed (l : Lock) (deferred : ℕ) : Prop :=
  l.globalLockAcquiringLock = some deferred ∨ l.globalLock = some deferred
    ∨ deferred ∈ l.namedLocks.map (·.2)

end NodeCqrs
