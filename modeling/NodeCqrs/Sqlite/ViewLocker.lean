import Mathlib.Data.Int.Notation
import Mathlib.Data.Nat.Notation
import Mathlib.Logic.Function.Basic
import NodeCqrs.Lib.Machine

/-!
# `SqliteViewLocker`

Any number of lockers on one row of the view lock table, the row of one projection name and schema
version. A call runs up to its query, which is a step of its own, since `assertConnection` is
awaited before it; `Date.now()` and the query are read in one step. A locker may have several
calls under way.
-/

namespace NodeCqrs

/-- A row of the table `viewLockTableInit` makes, over any type `E` of stored events. -/
structure ViewLockRow (E : Type) where
  lockedTill : Option ℤ := none
  lastEvent : Option E := none
deriving DecidableEq, Repr

namespace SqliteViewLocker

variable {E : Type}

/-- `#upsertTableLockQuery`: the row it leaves, and its `changes`. -/
def upsertTableLock (lockedTill : ℤ) : Option (ViewLockRow E) → Option (ViewLockRow E) × ℕ
  | none => (some { lockedTill := some lockedTill }, 1)
  | some r =>
    match r.lockedTill with
    | none => (some { r with lockedTill := some lockedTill }, 1)
    | some t =>
      if t < lockedTill then (some { r with lockedTill := some lockedTill }, 1) else (some r, 0)

/-- `#updateTableLockQuery` -/
def updateTableLock (lockedTill : ℤ) : Option (ViewLockRow E) → Option (ViewLockRow E) × ℕ
  | none => (none, 0)
  | some r =>
    if r.lockedTill.isSome then (some { r with lockedTill := some lockedTill }, 1)
    else (some r, 0)

/-- `#removeTableLockQuery` -/
def removeTableLock : Option (ViewLockRow E) → Option (ViewLockRow E) × ℕ
  | none => (none, 0)
  | some r =>
    if r.lockedTill.isSome then (some { r with lockedTill := none }, 1) else (some r, 0)

/-- One locker: its marker, its calls that have not run their query yet, and, to state what it
holds, whether `lock()` returned since the last `unlock()` and the expiry it last wrote, which is its
lease up to the query of an `unlock()`. -/
structure Locker where
  lockMarker : Bool := false
  locking : ℕ := 0
  prolonging : ℕ := 0
  unlocking : ℕ := 0
  locked : Bool := false
  lastWritten : Option ℤ := none
  lease : Option ℤ := none
deriving DecidableEq, Repr

/-- `get ready()` -/
def Locker.ready (l : Locker) : Bool := !l.lockMarker

structure Sys (E : Type) where
  now : ℤ
  row : Option (ViewLockRow E)
  lockers : ℕ → Locker

/-- What can happen next; `lock`, `prolongLock` and `unlock` are the calls, the others their
queries. -/
inductive Action
  | tick (ms : ℕ)
  | lock (i : ℕ)
  | upsert (i : ℕ)
  | prolongLock (i : ℕ)
  | update (i : ℕ)
  | unlock (i : ℕ)
  | remove (i : ℕ)
deriving DecidableEq, Repr

def Sys.set (s : Sys E) (i : ℕ) (l : Locker) : Sys E :=
  { s with lockers := Function.update s.lockers i l }

variable (viewLockTtl : ℕ → ℤ)

/-- The loop body of `lock()`: the call goes on until its upsert changes the row. -/
def tryLock (s : Sys E) (i : ℕ) : Option (Sys E) :=
  let l := s.lockers i
  let lockedTill := s.now + viewLockTtl i
  if l.locking = 0 then none
  else
    let (row, changes) := upsertTableLock lockedTill s.row
    if changes = 1 then
      some ({ s with row }.set i { l with
        locking := l.locking - 1
        locked := true
        lastWritten := some lockedTill
        lease := some lockedTill })
    else some { s with row }

/-- `prolongLock()` from its query on; with no row changed it throws. -/
def runProlong (s : Sys E) (i : ℕ) : Option (Sys E) :=
  let l := s.lockers i
  let lockedTill := s.now + viewLockTtl i
  if l.prolonging = 0 then none
  else
    let (row, changes) := updateTableLock lockedTill s.row
    let l := { l with prolonging := l.prolonging - 1 }
    some ({ s with row }.set i
      (if changes = 1 then { l with lastWritten := some lockedTill, lease := some lockedTill }
        else l))

/-- `unlock()` from its query on. -/
def runUnlock (s : Sys E) (i : ℕ) : Option (Sys E) :=
  let l := s.lockers i
  if l.unlocking = 0 then none
  else some ({ s with row := (removeTableLock s.row).1 }.set i
    { l with unlocking := l.unlocking - 1, lease := none })

def step (s : Sys E) : Action → Option (Sys E)
  | .tick ms => some { s with now := s.now + ms }
  | .lock i =>
    let l := s.lockers i
    some (s.set i { l with lockMarker := true, locking := l.locking + 1 })
  | .upsert i => tryLock viewLockTtl s i
  | .prolongLock i =>
    let l := s.lockers i
    some (s.set i { l with prolonging := l.prolonging + 1 })
  | .update i => runProlong viewLockTtl s i
  | .unlock i =>
    let l := s.lockers i
    some (s.set i { l with lockMarker := false, locked := false, unlocking := l.unlocking + 1 })
  | .remove i => runUnlock s i

/-- No locker has called anything yet; the row may be there already. -/
def Init (s : Sys E) : Prop :=
  (∀ i, s.lockers i = {}) ∧ ∀ r, s.row = some r → r.lockedTill = none

def machine : Machine (Sys E) Action := ⟨Init, step viewLockTtl⟩

/-- The locker holds the lock: its `lock()` returned, it has not called `unlock()` since, and the
expiry it last wrote is not in the past. -/
def Holds (s : Sys E) (i : ℕ) : Prop :=
  (s.lockers i).locked = true ∧ ∃ t, (s.lockers i).lastWritten = some t ∧ s.now ≤ t

/-- A `lock()` call of the locker obtains the lock in the next step. -/
def Obtains (s : Sys E) (i : ℕ) : Prop :=
  (s.lockers i).locking ≠ 0 ∧ (upsertTableLock (s.now + viewLockTtl i) s.row).2 = 1

end SqliteViewLocker

end NodeCqrs
