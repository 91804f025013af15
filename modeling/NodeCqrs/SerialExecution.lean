import NodeCqrs.AggregateCommandHandler

/-!
# Commands executed one at a time

What the command handlers are for. A command is executed alone, by an instance all stored events of
its aggregate were applied to, and the events of it are stored: there are no caches and no locks, no
snapshots to restore from, no conflicts and no retries. What is kept of an execution is also what
the instance was when the command's handler began.
-/

namespace NodeCqrs

/-- An aggregate's execution of a command: what its handler calls, and what `shouldTakeSnapshot`
then says. -/
structure Execution (I V : Type) where
  aggregateId : I
  cmd : Command I V
  methods : List (Method V)
  shouldTakeSnapshot : Bool := false

/-- An executed command: what the instance was when its handler began, and the command's events. -/
structure Executed (I V σ : Type) where
  cmd : Command I V
  version : ℕ
  state : σ
  events : List (Event I V)

variable {I V σ : Type}

namespace AggregateType

variable [Truthy V] (T : AggregateType I V σ)

/-- The calls of a handler, if none throws. -/
def callAll : Aggregate I V σ → List (Method V) → Option (Aggregate I V σ)
  | a, [] => some a
  | a, method :: methods =>
    match T.callMethod a method with
    | (a', true) => callAll a' methods
    | (_, false) => none

/-- The events of a command, if nothing throws. -/
def perform (a : Aggregate I V σ) (cmd : Command I V) (methods : List (Method V))
    (shouldTakeSnapshot : Bool) : Option (List (Event I V)) :=
  (a.handle cmd).bind fun (a, eventsOffset) =>
    (T.callAll a methods).bind fun a => (T.getUncommittedEvents a shouldTakeSnapshot eventsOffset).2

end AggregateType

namespace CommandHandlers

variable [DecidableEq I] [Truthy I] [Truthy V] (H : CommandHandlers I V σ)

/-- A command that names an aggregate is executed by it, and one that names none by any. -/
def serialStep (executed : List (Executed I V σ)) (e : Execution I V) :
    Option (List (Executed I V σ)) :=
  if (e.cmd.aggregateId.filter (truthy ·)).all (· = e.aggregateId) then
    (H.aggregateType.mutateAll (H.aggregateType.create e.aggregateId)
      ((executed.flatMap (·.events)).filter (·.aggregateId = some e.aggregateId))).bind
        fun aggregate =>
          (H.aggregateType.perform aggregate e.cmd e.methods e.shouldTakeSnapshot).map fun events =>
            executed ++ [⟨e.cmd, aggregate.version, aggregate.state, events⟩]
  else none

/-- One command after the other. -/
def serial : Machine (List (Executed I V σ)) (Execution I V) := ⟨(· = []), H.serialStep⟩

end CommandHandlers

namespace Commit

/-- The command of a batch, with what its handler called. -/
def execution (commit : Commit I V σ) : Execution I V where
  aggregateId := commit.attempt.start.id
  cmd := commit.cmd
  methods := commit.attempt.methods
  shouldTakeSnapshot := commit.attempt.shouldTakeSnapshot

/-- What came of it, from what instance. -/
def executed (commit : Commit I V σ) : Executed I V σ where
  cmd := commit.cmd
  version := commit.attempt.start.version
  state := commit.attempt.start.state
  events := commit.events

end Commit

end NodeCqrs
