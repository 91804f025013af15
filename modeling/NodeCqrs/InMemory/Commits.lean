import NodeCqrs.InMemory.EventStorage
import NodeCqrs.Lib.Machine

/-!
# Concurrent `commitEvents` calls

Any number of calls on one storage, none with `ignoreConcurrencyError`. Between its two waits a call
checks its batch against what is stored and appends it.
-/

namespace NodeCqrs

namespace InMemoryEventStorage

/-- Where a call is: at its first wait, at its second, or settled. -/
inductive CommitCall (I V : Type)
  | called (events : List (Event I V))
  | appended (events : List (Event I V))
  | returned (events : List (Event I V))
  | threw (error : DispatchError I)
deriving DecidableEq, Repr

/-- The storage, and the calls in the order they were made. -/
structure Commits (I V : Type) where
  storage : InMemoryEventStorage I V := {}
  calls : List (CommitCall I V) := []

inductive CommitAction (I V : Type)
  | commitEvents (events : List (Event I V))
  | append (i : ℕ)
  | return (i : ℕ)

namespace Commits

variable {I V : Type} [DecidableEq I]

def step (s : Commits I V) : CommitAction I V → Option (Commits I V)
  | .commitEvents events => some { s with calls := s.calls ++ [.called events] }
  | .append i =>
    match s.calls[i]? with
    | some (.called events) =>
      match s.storage.commitEvents events false with
      | .ok storage => some { storage, calls := s.calls.set i (.appended events) }
      | .error error => some { s with calls := s.calls.set i (.threw error) }
    | _ => none
  | .return i =>
    match s.calls[i]? with
    | some (.appended events) => some { s with calls := s.calls.set i (.returned events) }
    | _ => none

def machine : Machine (Commits I V) (CommitAction I V) := ⟨(· = {}), step⟩

end Commits

end InMemoryEventStorage

end NodeCqrs
