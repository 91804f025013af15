import NodeCqrs.Lib.Machine
import NodeCqrs.Utils.Lock

/-!
# `acquire` calls and microtasks

The calls of one lock's `acquire` in JavaScript's order. A call that awaits a `Deferred` goes on in
a microtask, queued once that is resolved, after those that awaited it before; a call that is
granted the lock returns its lease in a microtask too. Calls and releases are made at any time, each
before the next microtask.
-/

namespace NodeCqrs

namespace LockMicrotasks

/-- A call of `acquire`, by its number, with the name it asks for; none asks for the global lock. -/
structure Request where
  call : ℕ
  name : String
deriving DecidableEq, Repr

structure Waiter where
  request : Request
  awaits : Acquiring
deriving DecidableEq, Repr

/-- What a microtask goes on with: a wait of `acquire`, its caller, or some other code. -/
inductive Microtask
  | resume (waiter : Waiter)
  | lease (request : Request)
  | other
deriving DecidableEq, Repr

/-- `awaiting` has the calls that await a `Deferred`, as they began to, `granted` those that were
granted the lock, and `returned` those whose lease was returned and is not released. -/
structure Sys where
  lock : Lock := {}
  calls : ℕ := 0
  awaiting : List Waiter := []
  microtasks : List Microtask := []
  granted : List Request := []
  returned : List Request := []
deriving DecidableEq, Repr

inductive Action
  | acquire (name : String)
  | release (request : Request)
  | queueMicrotask
  | microtask
deriving DecidableEq, Repr

/-- Those whose `Deferred` is resolved are to go on. -/
def wake (s : Sys) : Sys :=
  { s with
    awaiting := s.awaiting.filter (!s.lock.woken ·.awaits)
    microtasks := s.microtasks ++ (s.awaiting.filter (s.lock.woken ·.awaits)).map .resume }

/-- A call has gone on to its next wait, or was granted the lock. -/
def settle (s : Sys) (request : Request) : Lock × Acquiring → Sys
  | (lock, .acquired) =>
    let s' := wake { s with lock }
    { s' with
      microtasks := s'.microtasks ++ [.lease request]
      granted := s'.granted ++ [request] }
  | (lock, awaits) =>
    let s' := wake { s with lock }
    { s' with awaiting := s'.awaiting ++ [{ request, awaits }] }

def step (s : Sys) : Action → Option Sys
  | .acquire name =>
    some (settle { s with calls := s.calls + 1 } ⟨s.calls, name⟩ (s.lock.acquire name))
  | .release request =>
    if request ∈ s.returned then
      some (wake { s with
        lock := s.lock.release request.name
        returned := s.returned.erase request })
    else none
  | .queueMicrotask => some { s with microtasks := s.microtasks ++ [.other] }
  | .microtask =>
    match s.microtasks with
    | [] => none
    | .resume { request, awaits } :: microtasks =>
      (s.lock.resume request.name awaits).map (settle { s with microtasks } request)
    | .lease request :: microtasks =>
      some { s with microtasks, returned := s.returned ++ [request] }
    | .other :: microtasks => some { s with microtasks }

def machine : Machine Sys Action where
  Init s := s = {}
  step := step

/-- The calls that are to go on. -/
def woken (microtasks : List Microtask) : List Waiter :=
  microtasks.filterMap fun
    | .resume waiter => some waiter
    | .lease _ | .other => none

/-- The calls that were made and are not granted the lock. -/
def Sys.pending (s : Sys) : List Waiter := s.awaiting ++ woken s.microtasks

end LockMicrotasks

end NodeCqrs
