import NodeCqrs.Lib.Following
import NodeCqrs.Sqlite.EventStorage

/-!
# `getEventsByTypes` over a growing log

Consumers that read the events of their types with `getEventsByTypes`, each after the last event
that it has got, while anyone commits events.
-/

namespace NodeCqrs

namespace InMemoryEventStorage

variable {I V : Type} [DecidableEq I]

/-- A `commitEvents` call. -/
structure CommitEvents (I V : Type) where
  events : List (Event I V)
  ignoreConcurrencyError : Bool := false

/-- The storage after the call, rejected or not. -/
def afterCall (s : InMemoryEventStorage I V) (call : CommitEvents I V) : InMemoryEventStorage I V :=
  match s.commitEvents call.events call.ignoreConcurrencyError with
  | .ok s' => s'
  | .error _ => s

variable (I V) in
def followed : Following.Store (InMemoryEventStorage I V) (CommitEvents I V) (Option (List String))
    (Event I V) (Event I V) where
  Init s := s = {}
  commit := afterCall
  log s := s.events
  read s eventTypes afterEvent := (getEventsByTypes s.events eventTypes afterEvent).toOption
  give _ event := event

end InMemoryEventStorage

namespace SqliteEventStorage

variable (V : Type)

def followed : Following.Store (SqliteEventStorage V) (CommitCall V) (List String)
    (Event String V) (EventRow V) where
  Init s := s = {}
  commit := afterCall
  log s := s.events
  read s eventTypes afterEvent := (s.getEventsByTypes eventTypes afterEvent).toOption
  give := reconstructEvent

end SqliteEventStorage

end NodeCqrs
