import NodeCqrs.Utils.LockLease

/-!
# `AbstractSqliteAccessor`

Any number of calls of `assertConnection` on one accessor, each of which goes on in a step of its
own from one wait to the next. The factory and `initialize` may fail each time. What is called, and
what succeeds, is logged in order.
-/

namespace NodeCqrs

namespace SqliteAccessor

/-- What a call awaits, or how it has settled. -/
inductive Connecting
  | acquire
  | dbFactory
  | initializing
  | resolved
  | rejected
deriving DecidableEq, Repr

inductive Logged
  | dbFactory (c : ℕ)
  | dbCreated (c : ℕ)
  | initializing (c : ℕ)
  | initialized (c : ℕ)
deriving DecidableEq, Repr

structure Sys (D : Type) where
  db : Option D
  initLocker : LockLease.Sys := {}
  initialized : Bool := false
  calls : ℕ → Option Connecting := fun _ => none
  log : List Logged := []

inductive Action (D : Type)
  | assertConnection (c : ℕ)
  /-- `acquire` goes on from a wait. -/
  | resume (c : ℕ)
  /-- The call goes on, as `acquire` has returned. -/
  | acquired (c : ℕ)
  /-- What the factory comes to. -/
  | dbFactory (c : ℕ) (db : Option D)
  /-- What `initialize` comes to. -/
  | initialized (c : ℕ) (succeeds : Bool)
deriving DecidableEq, Repr

variable {D : Type}

def Sys.set (s : Sys D) (c : ℕ) (connecting : Connecting) : Sys D :=
  { s with calls := Function.update s.calls c (some connecting) }

def Sys.logs (s : Sys D) (logged : Logged) : Sys D := { s with log := s.log ++ [logged] }

/-- `finally`, and the call settles. -/
def Sys.settle (s : Sys D) (c : ℕ) (connecting : Connecting) : Option (Sys D) :=
  (LockLease.step s.initLocker (.release c)).map fun initLocker =>
    { s with initLocker }.set c connecting

/-- `initialize` is called. -/
def Sys.callInitialize (s : Sys D) (c : ℕ) : Sys D :=
  (s.logs (.initializing c)).set c .initializing

/-- `assertConnection` with the lock. -/
def Sys.connect (s : Sys D) (c : ℕ) : Option (Sys D) :=
  if s.initialized then s.settle c .resolved
  else
    match s.db with
    | none => some ((s.logs (.dbFactory c)).set c .dbFactory)
    | some _ => some (s.callInitialize c)

/-- The call has the lock. -/
def Sys.holds (s : Sys D) (c : ℕ) : Bool := (s.initLocker.leases c).any (·.held)

def step (s : Sys D) : Action D → Option (Sys D)
  | .assertConnection c =>
    if (s.calls c).isSome then none
    else if s.initialized then some (s.set c .resolved)
    else
      (LockLease.step s.initLocker (.acquire c "")).map fun initLocker =>
        { s with initLocker }.set c .acquire
  | .resume c =>
    (LockLease.step s.initLocker (.resume c)).map fun initLocker => { s with initLocker }
  | .acquired c => if s.calls c = some .acquire ∧ s.holds c then s.connect c else none
  | .dbFactory c db =>
    if s.calls c = some .dbFactory then
      match db with
      | some db => some (({ s with db := some db }.logs (.dbCreated c)).callInitialize c)
      | none => s.settle c .rejected
    else none
  | .initialized c succeeds =>
    if s.calls c = some .initializing then
      if succeeds then ({ s with initialized := true }.logs (.initialized c)).settle c .resolved
      else s.settle c .rejected
    else none

/-- An accessor with a database or without. -/
def machine (D : Type) : Machine (Sys D) (Action D) := ⟨fun s => ∃ db, s = { db }, step⟩

end SqliteAccessor

end NodeCqrs
