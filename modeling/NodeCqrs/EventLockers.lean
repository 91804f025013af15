import NodeCqrs.Mongo.EventLocker
import NodeCqrs.Redis.EventLocker
import NodeCqrs.Sqlite.EventLocker
import NodeCqrs.Sqlite.Guid

/-!
# The event lockers side by side

One sequence of timed calls, made on each of the three lockers. An event is its id here; the SQLite
locker keeps it as the bytes of `guid`.
-/

namespace NodeCqrs

inductive EventLockerCall
  | tryMarkAsProjecting (event : String)
  | markAsProjected (event : String)
deriving DecidableEq, Repr

def EventLockerCall.event : EventLockerCall → String
  | .tryMarkAsProjecting event => event
  | .markAsProjected event => event

inductive EventLockerOutcome
  | returned (locked : Bool)
  | resolved
  | threw (message : String)
deriving DecidableEq, Repr

def notMarked (event : String) : EventLockerOutcome :=
  .threw s!"Event {event} could not be marked as processed"

variable {E : Type} (eventLockTtl : ℕ) (now : ℤ)

def SqliteEventLocker.call (s : SqliteEventLocker (List ℕ) E) :
    EventLockerCall → SqliteEventLocker (List ℕ) E × EventLockerOutcome
  | .tryMarkAsProjecting event =>
    let (s, locked) := s.tryMarkAsProjecting eventLockTtl now (guid event)
    (s, .returned locked)
  | .markAsProjected event =>
    match s.markAsProjected now (guid event) with
    | some s => (s, .resolved)
    | none => (s, notMarked event)

def MongoEventLocker.call (s : MongoEventLocker) :
    EventLockerCall → MongoEventLocker × EventLockerOutcome
  | .tryMarkAsProjecting event =>
    let (s, locked) := s.tryMarkAsProjecting eventLockTtl now event
    (s, .returned locked)
  | .markAsProjected event =>
    match s.markAsProjected now event with
    | some s => (s, .resolved)
    | none => (s, notMarked event)

def RedisEventLocker.call (s : RedisEventLocker) :
    EventLockerCall → RedisEventLocker × EventLockerOutcome
  | .tryMarkAsProjecting event =>
    match s.tryMarkAsProjecting eventLockTtl now event with
    | .ok (s, locked) => (s, .returned locked)
    | .error message => (s, .threw message)
  | .markAsProjected event =>
    match s.markAsProjected now event with
    | some s => (s, .resolved)
    | none => (s, notMarked event)

/-- What the calls of a sequence come to, made one at a time. -/
def outcomes {σ : Type} (call : ℤ → σ → EventLockerCall → σ × EventLockerOutcome) :
    σ → List (ℤ × EventLockerCall) → List EventLockerOutcome
  | _, [] => []
  | s, (now, c) :: calls => (call now s c).2 :: outcomes call (call now s c).1 calls

end NodeCqrs
