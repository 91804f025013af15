import NodeCqrs.Utils.LockLease

/-!
# Leases released more than once

The calls of one lock's `acquire`, with leases that are released any number of times, by `release()`
or by `[Symbol.dispose]()`.
-/

namespace NodeCqrs

namespace LockReleases

/-- `owner` is the call whose lock of a name is held, and `ended` has, of each release that ended a
lock, the call whose lease was released and the one whose lock it was. -/
structure Sys where
  leases : LockLease.Sys := {}
  owner : String → Option ℕ := fun _ => none
  ended : List (ℕ × ℕ) := []

inductive Action
  | acquire (c : ℕ) (name : String)
  | resume (c : ℕ)
  | release (c : ℕ)
deriving DecidableEq, Repr

/-- The call has gone on; it owns the lock it was granted. -/
def Sys.settle (s : Sys) (c : ℕ) (leases : LockLease.Sys) : Sys :=
  match leases.leases c with
  | some { name, awaits := .acquired, .. } =>
    { s with leases, owner := Function.update s.owner name (some c) }
  | _ => { s with leases }

/-- `release()`; the name is all that the lease tells the lock. -/
def Sys.release (s : Sys) (c : ℕ) (lease : LockLease) : Sys where
  leases := { s.leases with lock := s.leases.lock.release lease.name }.set c
    { lease with released := true }
  owner := Function.update s.owner lease.name none
  ended := s.ended ++ (s.owner lease.name).toList.map (c, ·)

def step (s : Sys) : Action → Option Sys
  | .acquire c name => (LockLease.step s.leases (.acquire c name)).map (s.settle c)
  | .resume c => (LockLease.step s.leases (.resume c)).map (s.settle c)
  | .release c =>
    match s.leases.leases c with
    | some lease => if lease.awaits = .acquired then some (s.release c lease) else none
    | none => none

def machine : Machine Sys Action := ⟨(· = {}), step⟩

end LockReleases

end NodeCqrs
