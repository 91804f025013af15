import Mathlib.Data.Nat.Notation
import Mathlib.Data.List.Basic

/-!
# `Lock`

Named locks and a global one. A lock held is a `Deferred`, by its number; who waits for it goes on
once it is resolved. The empty name stands for no name.
-/

namespace NodeCqrs

structure Lock where
  nextDeferred : ℕ := 0
  resolved : List ℕ := []
  globalLockAcquiringLock : Option ℕ := none
  globalLock : Option ℕ := none
  namedLocks : List (String × ℕ) := []
deriving DecidableEq, Repr

/-- What a call of `acquire` awaits: the end of another's acquiring, a lock that blocks it, or
nothing any more. -/
inductive Acquiring
  | globalLockAcquiringLock (deferred : ℕ)
  | blockingLock (deferred : ℕ)
  | acquired
deriving DecidableEq, Repr

namespace Lock

def getAnyBlockingLock (l : Lock) (id : String) : Option ℕ :=
  l.globalLock <|> if id = "" then l.namedLocks.head?.map (·.2) else l.namedLocks.lookup id

def isLocked (l : Lock) (name : String) : Bool := (l.getAnyBlockingLock name).isSome

/-- A new deferred becomes the lock of the name. -/
def take (l : Lock) (name : String) : Lock :=
  if name = "" then
    { l with
      nextDeferred := l.nextDeferred + 1
      globalLock := some l.nextDeferred
      globalLockAcquiringLock := none
      resolved := l.globalLockAcquiringLock.toList ++ l.resolved }
  else
    { l with
      nextDeferred := l.nextDeferred + 1
      namedLocks := l.namedLocks.filter (·.1 ≠ name) ++ [(name, l.nextDeferred)] }

/-- `acquire` from its second loop on. -/
def acquireBlocked (l : Lock) (name : String) : Lock × Acquiring :=
  match l.getAnyBlockingLock name with
  | some deferred => (l, .blockingLock deferred)
  | none => (l.take name, .acquired)

/-- `acquire` up to its first wait. -/
def acquire (l : Lock) (name : String) : Lock × Acquiring :=
  match l.globalLockAcquiringLock with
  | some deferred => (l, .globalLockAcquiringLock deferred)
  | none =>
    if name = "" then
      acquireBlocked { l with
        nextDeferred := l.nextDeferred + 1
        globalLockAcquiringLock := some l.nextDeferred } name
    else l.acquireBlocked name

/-- `acquire` from a wait whose deferred is resolved to the next. -/
def resume (l : Lock) (name : String) : Acquiring → Option (Lock × Acquiring)
  | .globalLockAcquiringLock deferred =>
    if deferred ∈ l.resolved then some (l.acquire name) else none
  | .blockingLock deferred =>
    if deferred ∈ l.resolved then some (l.acquireBlocked name) else none
  | .acquired => none

/-- What a call of `acquire` awaits is resolved. -/
def woken (l : Lock) : Acquiring → Bool
  | .globalLockAcquiringLock deferred => deferred ∈ l.resolved
  | .blockingLock deferred => deferred ∈ l.resolved
  | .acquired => false

def release (l : Lock) (name : String) : Lock :=
  if name = "" then
    { l with globalLock := none, resolved := l.globalLock.toList ++ l.resolved }
  else
    { l with
      namedLocks := l.namedLocks.filter (·.1 ≠ name)
      resolved := (l.namedLocks.lookup name).toList ++ l.resolved }

end Lock

end NodeCqrs
