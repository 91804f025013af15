import NodeCqrs.Lib.Machine
import NodeCqrs.Utils.Lock
import Mathlib.Logic.Function.Basic

/-!
# `LockLease`

Any number of calls of one lock's `acquire`, each with the lease it returns. A call goes on from
one wait to the next in a step of its own, in any order; a lease is released once.
-/

namespace NodeCqrs

/-- A call of `acquire` with what it awaits, then the lease it returned. -/
structure LockLease where
  name : String
  awaits : Acquiring
  released : Bool := false
deriving DecidableEq, Repr

namespace LockLease

/-- The lease was returned and is not released yet. -/
def held (lease : LockLease) : Bool := lease.awaits = .acquired && !lease.released

structure Sys where
  lock : Lock := {}
  leases : ℕ → Option LockLease := fun _ => none

inductive Action
  | acquire (c : ℕ) (name : String)
  | resume (c : ℕ)
  | release (c : ℕ)
deriving DecidableEq, Repr

def Sys.set (s : Sys) (c : ℕ) (lease : LockLease) : Sys :=
  { s with leases := Function.update s.leases c (some lease) }

def step (s : Sys) : Action → Option Sys
  | .acquire c name =>
    match s.leases c with
    | some _ => none
    | none =>
      let (lock, awaits) := s.lock.acquire name
      some ({ s with lock }.set c { name, awaits })
  | .resume c =>
    (s.leases c).bind fun lease =>
      (s.lock.resume lease.name lease.awaits).map fun (lock, awaits) =>
        { s with lock }.set c { lease with awaits }
  | .release c =>
    (s.leases c).bind fun lease =>
      if lease.held then
        some ({ s with lock := s.lock.release lease.name }.set c { lease with released := true })
      else none

def machine : Machine Sys Action := ⟨(· = {}), step⟩

/-- The lease of the call is held, and is one of the name; of no name, if it is global. -/
def Sys.Holds (s : Sys) (c : ℕ) (name : String) : Prop :=
  ∃ lease, s.leases c = some lease ∧ lease.held ∧ lease.name = name

end LockLease

end NodeCqrs
