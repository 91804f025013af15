import NodeCqrs.AggregateCommandHandler

/-!
# `execute` calls and microtasks

The command handlers in JavaScript's order: a task runs to its end, then the microtasks, first in
first out, and then another task. A call that awaits a lock goes on as a microtask, queued once the
lock's deferred is resolved, after those that awaited it before; and so does a call whose `acquire`
returns. What else the handlers do, other code does, as a task or in a microtask of its own, queued
at any time. Calls are numbered as they are made.
-/

namespace NodeCqrs

/-- What a microtask goes on with: a wait of `acquire`, `execute` once that returns, or some other
code. -/
inductive Microtask
  | acquire (c : ℕ)
  | lease (c : ℕ)
  | other
deriving DecidableEq, Repr

/-- `awaiting` are the calls that await a deferred of their lock, as they began to, `executed` the
handlers and commands of all calls, and `handled` the calls of those that were handled, if they
name an aggregate. -/
structure Microtasks (I V σ : Type) where
  sys : CommandHandlers.Sys I V σ := {}
  running : Bool := false
  microtasks : List Microtask := []
  awaiting : List ℕ := []
  executed : List (ℕ × Command I V) := []
  handled : List ℕ := []

/-- The deferred that is awaited. -/
def Acquiring.deferred : Acquiring → Option ℕ
  | .globalLockAcquiringLock deferred | .blockingLock deferred => some deferred
  | .acquired => none

namespace Microtasks

open CommandHandlers (Sys)

/-- `run` is a step of the handlers', and `returns` the end of what runs. -/
inductive Action (I V : Type)
  | macrotask
  | microtask
  | run (action : CommandHandlers.Action I V)
  | queueMicrotask
  | returns

variable {I V σ : Type}

/-- What a call of `acquire` awaits. -/
def acquiring (sys : Sys I V σ) (c : ℕ) : Option Acquiring :=
  (sys.calls c).bind fun call =>
    match call.phase with
    | .acquiring awaits => some awaits
    | _ => none

/-- The deferred a call awaits is resolved. -/
def isResolved (sys : Sys I V σ) (c : ℕ) : Bool :=
  (sys.calls c).any fun call => ((acquiring sys c).bind (·.deferred)).any
    (· ∈ (sys.lock call.handler).resolved)

/-- The call whose `acquire` a step is of. -/
def acquirer : CommandHandlers.Action I V → Option ℕ
  | .execute c _ _ | .acquire c => some c
  | _ => none

variable [DecidableEq I] [Truthy I]

omit [DecidableEq I] in
/-- The call whose command the step has an aggregate handle. -/
def handling (sys : Sys I V σ) : CommandHandlers.Action I V → Option ℕ
  | .handle c => (sys.calls c).bind fun call =>
    match call.phase with
    | .handler _ _ => (CommandHandlers.aggregateId call).map fun _ => c
    | _ => none
  | _ => none

variable [Truthy V] (H : CommandHandlers I V σ)

/-- A step of the handlers', with what it queues. -/
def advance (s : Microtasks I V σ) (action : CommandHandlers.Action I V) :
    Option (Microtasks I V σ) :=
  (H.step s.sys action).map fun sys =>
    let acquired := (acquirer action).filter fun c => acquiring sys c = some .acquired
    let awaits := (acquirer action).filter fun c => ((acquiring sys c).bind (·.deferred)).isSome
    { s with
      sys
      microtasks := s.microtasks ++ (s.awaiting.filter (isResolved sys ·)).map .acquire
        ++ acquired.toList.map .lease
      awaiting := s.awaiting.filter (!isResolved sys ·) ++ awaits.toList
      handled := s.handled ++ (handling sys action).toList }

def step (s : Microtasks I V σ) : Action I V → Option (Microtasks I V σ)
  | .macrotask =>
    if !s.running && s.microtasks.isEmpty then some { s with running := true } else none
  | .microtask =>
    if s.running then none
    else
      match s.microtasks with
      | [] => none
      | .acquire c :: microtasks => advance H { s with microtasks } (.acquire c)
      | .lease c :: microtasks =>
        -- the cache may have an aggregate made
        advance H { s with microtasks, running := true } (.lease c)
      | .other :: microtasks => some { s with microtasks, running := true }
  | .run action =>
    if s.running then
      match action with
      | .acquire _ | .lease _ => none
      | .execute c h cmd =>
        if c = s.executed.length then
          advance H { s with executed := s.executed ++ [(h, cmd)] } action
        else none
      | action => advance H s action
    else none
  | .queueMicrotask =>
    if s.running then some { s with microtasks := s.microtasks ++ [.other] } else none
  | .returns => if s.running then some { s with running := false } else none

def machine : Machine (Microtasks I V σ) (Action I V) := ⟨(· = {}), step H⟩

end Microtasks

end NodeCqrs
