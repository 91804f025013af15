import Mathlib.Data.Nat.Notation
import NodeCqrs.Lib.Machine

/-!
# Live events of an `AbstractProjection` over an `InMemoryView`

Calls of `project()` and `restore()` at any time, with the queue of microtasks: a call that awaits
the lock goes on in a microtask, which is queued when the lock is released. The calls of `project()`
are numbered. What `_restore` does with stored events is left out.
-/

namespace NodeCqrs

namespace LiveEvents

/-- What awaits the promise of `#lockMarker`: a `project()` call, or the loop of `lock()`. -/
inductive Waiter
  | project (call : ℕ) (type : String)
  | lock
deriving DecidableEq, Repr

/-- A microtask: a waiter goes on, or other code runs, which can make calls. -/
inductive Microtask
  | resume (waiter : Waiter)
  | other
deriving DecidableEq, Repr

/-- `locked` is whether there is a `#lockMarker`, `waiting` what awaits it, and `started` the calls
whose handler was started. To state their order: how many calls there were, and those of them for an
event that has a handler. -/
structure Sys where
  locked : Bool := false
  waiting : List Waiter := []
  microtasks : List Microtask := []
  started : List ℕ := []
  calls : ℕ := 0
  handled : List ℕ := []
deriving DecidableEq, Repr

/-- `restore` is a call of it up to `lock()`, and `unlock` its end; `microtask` runs the first of the
queue. -/
inductive Action
  | project (type : String)
  | restore
  | unlock
  | queueMicrotask
  | microtask
deriving DecidableEq, Repr

variable (handles : List String)

/-- `_project`; without a handler it rejects. -/
def _project (s : Sys) (call : ℕ) (type : String) : Sys :=
  if type ∈ handles then { s with started := s.started ++ [call] } else s

/-- `project` -/
def project (s : Sys) (type : String) : Sys :=
  let s' := { s with
    calls := s.calls + 1
    handled := if type ∈ handles then s.handled ++ [s.calls] else s.handled }
  if s.locked then { s' with waiting := s.waiting ++ [.project s.calls type] }
  else _project handles s' s.calls type

/-- The loop of `lock`. -/
def lock (s : Sys) : Sys :=
  if s.locked then { s with waiting := s.waiting ++ [.lock] } else { s with locked := true }

/-- `unlock` -/
def unlock (s : Sys) : Sys :=
  if s.locked then
    { s with
      locked := false
      waiting := []
      microtasks := s.microtasks ++ s.waiting.map .resume }
  else s

def resume (s : Sys) : Waiter → Sys
  | .project call type => _project handles s call type
  | .lock => lock s

def step (s : Sys) : Action → Option Sys
  | .project type => some (project handles s type)
  | .restore => some (lock s)
  | .unlock => some (unlock s)
  | .queueMicrotask => some { s with microtasks := s.microtasks ++ [.other] }
  | .microtask =>
    match s.microtasks with
    | [] => none
    | .other :: microtasks => some { s with microtasks }
    | .resume waiter :: microtasks => some (resume handles { s with microtasks } waiter)

def machine : Machine Sys Action where
  Init s := s = {}
  step := step handles

end LiveEvents

end NodeCqrs
