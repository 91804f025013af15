import Mathlib.Data.Nat.Notation
import NodeCqrs.Lib.Machine

/-!
# `once('ready')` of the view lockers

One locker and its markers: the `Deferred`s that `lock()` installs, `once` returns the promise of,
and `unlock()` resolves. What a locker asks of its database, and when, does not touch them.
-/

namespace NodeCqrs

namespace ViewLockers

/-- The `Deferred`s are numbered. `promised` has those whose promise `once` returned; `waiting` are
the `lock()` calls of an `InMemoryLock` that await the marker, `woken` those that are to go on. -/
structure Markers where
  deferreds : ℕ := 0
  lockMarker : Option ℕ := none
  resolved : List ℕ := []
  promised : List ℕ := []
  waiting : ℕ := 0
  woken : ℕ := 0
deriving DecidableEq, Repr

/-- `get ready()` -/
def ready (s : Markers) : Bool := s.lockMarker.isNone

/-- `this.#lockMarker = new Deferred()` -/
def install (s : Markers) : Markers :=
  { s with lockMarker := some s.deferreds, deferreds := s.deferreds + 1 }

/-- `once('ready')`; without a marker it returns a promise that is resolved. -/
def once (s : Markers) : Markers :=
  match s.lockMarker with
  | some deferred => { s with promised := s.promised ++ [deferred] }
  | none => s

/-- `unlock()` -/
def unlock (s : Markers) : Markers :=
  match s.lockMarker with
  | some deferred =>
    { s with
      lockMarker := none
      resolved := s.resolved ++ [deferred]
      waiting := 0
      woken := s.woken + s.waiting }
  | none => s

/-- `lock()`, whose loop awaits `once('ready')` while the lock is held. -/
def InMemoryLock.lock (s : Markers) : Markers :=
  if ready s then install s else { once s with waiting := s.waiting + 1 }

def SqliteViewLocker.lock (s : Markers) : Markers := install s

def MongoViewLocker.lock (s : Markers) : Markers := install s

def RedisViewLocker.lock (s : Markers) : Markers := install s

inductive Locker
  | inMemory
  | sqlite
  | mongo
  | redis
deriving DecidableEq, Repr

def Locker.lock : Locker → Markers → Markers
  | .inMemory => InMemoryLock.lock
  | .sqlite => SqliteViewLocker.lock
  | .mongo => MongoViewLocker.lock
  | .redis => RedisViewLocker.lock

/-- `resume` is a `lock()` call of an `InMemoryLock` that goes on with its loop. -/
inductive Action
  | lock
  | unlock
  | once
  | resume
deriving DecidableEq, Repr

def step (locker : Locker) (s : Markers) : Action → Option Markers
  | .lock => some (locker.lock s)
  | .unlock => some (unlock s)
  | .once => some (once s)
  | .resume =>
    if s.woken = 0 then none else some (InMemoryLock.lock { s with woken := s.woken - 1 })

def machine (locker : Locker) : Machine Markers Action where
  Init s := s = {}
  step := step locker

end ViewLockers

end NodeCqrs
