import Mathlib.Logic.Function.Basic
import NodeCqrs.Event
import NodeCqrs.Lib.Machine

/-!
# `EventDispatchPipeline`

One pipeline while any number of batches is on its way. `parallelPipe` starts the actions on what it
is given in that order, as many at a time as `concurrentLimit` allows, and yields what they return
in that order. What a processor's calls resolve to or reject with, and when, is open, as is when
the calls to `revert` resolve. `eventBus.publish` returns a promise.
-/

namespace NodeCqrs

namespace DispatchPipeline

variable {I V M ε : Type}

/-- `DispatchPipelineEnvelope`, as `{ event, ...meta }` takes it apart. -/
structure Entry (I V M : Type) where
  event : Option (Event I V)
  metadata : M
deriving DecidableEq

/-- `DispatchPipelineBatch` -/
abbrev Batch (I V M : Type) := List (Entry I V M)

/-- `IDispatchPipelineProcessor`: whether it has a `revert`. -/
structure Processor where
  revert : Bool

/-- `EventBatchEnvelope`, with the number of the push for its `resolve` and `reject`. -/
structure EventBatchEnvelope (I V M ε : Type) where
  id : ℕ
  data : Batch I V M
  error : Option ε := none

/-- What a call to `process` resolves to or rejects with. -/
abbrev Answer (I V M ε : Type) := Except ε (Batch I V M)

/-- An action of a pipe: it awaits `preprocessor.process(envelope.data)`, or has returned. -/
inductive Slot (I V M ε : Type)
  | running (envelope : EventBatchEnvelope I V M ε)
  | done (envelope : EventBatchEnvelope I V M ε)

namespace Slot

def envelope : Slot I V M ε → EventBatchEnvelope I V M ε
  | running envelope => envelope
  | done envelope => envelope

def id (slot : Slot I V M ε) : ℕ := slot.envelope.id

def isRunning : Slot I V M ε → Bool
  | running _ => true
  | done _ => false

end Slot

/-- In `lines`, `#pipelineInput` comes first and then the actions of each processor's pipe; in
`reverting` the envelope whose batch is reverted and the processor that is awaited. The rest records
the pushes, and under the number of a push the calls to `process` (of which processor), what they
came to, the calls to `revert`, and those to `publish` and to `resolve` or `reject`. -/
structure State (I V M ε : Type) where
  lines : ℕ → List (Slot I V M ε) := fun _ => []
  reverting : Option (EventBatchEnvelope I V M ε × ℕ) := none
  pushed : List (Batch I V M) := []
  processed : List (ℕ × ℕ × Batch I V M) := []
  answered : List (ℕ × Answer I V M ε) := []
  reverted : List (ℕ × ℕ × Batch I V M) := []
  published : List (ℕ × Event I V × M) := []
  settled : List (ℕ × Except ε (List (Event I V))) := []

/-- `start` is a pipe going on to its next action, `answer` a call to `process` that resolves or
rejects, `consume` the loop of `#ensureProcessingStarted` taking an envelope, and `revertReturned`
going on from the call to `revert` it awaits. -/
inductive Action (I V M ε : Type)
  | push (data : Batch I V M)
  | start (processor : ℕ)
  | answer (processor id : ℕ) (answer : Answer I V M ε)
  | consume
  | revertReturned

/-- What the action of a pipe returns once `process` has answered. -/
def EventBatchEnvelope.answered (envelope : EventBatchEnvelope I V M ε) :
    Answer I V M ε → EventBatchEnvelope I V M ε
  | .ok data => { envelope with data }
  | .error error => { envelope with error := some error }

def Slot.answered (id : ℕ) (answer : Answer I V M ε) : Slot I V M ε → Slot I V M ε
  | running envelope =>
    if envelope.id = id then done (envelope.answered answer) else running envelope
  | done envelope => done envelope

/-- What the loop over a batch hands to `publish`. -/
def publishes [Truthy V] (data : Batch I V M) : List (Event I V × M) :=
  data.filterMap fun batch =>
    match batch.event with
    | none => none
    | some event => if isSnapshotEvent event then none else some (event, batch.metadata)

variable [Truthy ε]

/-- `envelope.error`, where it is truthy. -/
def EventBatchEnvelope.failure (envelope : EventBatchEnvelope I V M ε) : Option ε :=
  envelope.error.filter (truthy ·)

variable (processors : List Processor) (concurrentLimit : ℕ)

/-- `revert` from a processor on; past the last one the envelope is rejected. -/
def revertFrom (s : State I V M ε) (envelope : EventBatchEnvelope I V M ε) (error : ε) (k : ℕ) :
    State I V M ε :=
  match processors[k]? with
  | some processor => { s with
      reverting := some (envelope, k)
      reverted := s.reverted ++ if processor.revert then [(envelope.id, k, envelope.data)] else [] }
  | none => { s with
      reverting := none
      settled := s.settled ++ [(envelope.id, .error error)] }

/-- A pipe starts its action on an envelope. -/
def startAction (s : State I V M ε) (k : ℕ) (envelope : EventBatchEnvelope I V M ε) :
    Slot I V M ε × List (ℕ × ℕ × Batch I V M) :=
  match envelope.failure with
  | some _ => (.done envelope, s.processed)
  | none => (.running envelope, s.processed ++ [(envelope.id, k, envelope.data)])

variable [Truthy V]

def step (s : State I V M ε) : Action I V M ε → Option (State I V M ε)
  | .push data => some { s with
      lines := Function.update s.lines 0 (s.lines 0 ++ [.done { id := s.pushed.length, data }])
      pushed := s.pushed ++ [data] }
  | .start k =>
    match s.lines k with
    | .done envelope :: rest =>
      if k < processors.length ∧ (s.lines (k + 1)).countP Slot.isRunning < concurrentLimit then
        let (slot, processed) := startAction s k envelope
        some { s with
          lines := Function.update (Function.update s.lines k rest) (k + 1)
            (s.lines (k + 1) ++ [slot])
          processed }
      else none
    | _ => none
  | .answer k id answer =>
    if k < processors.length
        ∧ (s.lines (k + 1)).any (fun slot => slot.isRunning && slot.id = id) then
      some { s with
        lines := Function.update s.lines (k + 1) ((s.lines (k + 1)).map (Slot.answered id answer))
        answered := s.answered ++ [(id, answer)] }
    else none
  | .consume =>
    match s.reverting, s.lines processors.length with
    | none, .done envelope :: rest =>
      let s := { s with lines := Function.update s.lines processors.length rest }
      match envelope.failure with
      | some error => some (revertFrom processors s envelope error 0)
      | none => some { s with
          published := s.published ++ (publishes envelope.data).map fun p => (envelope.id, p)
          settled := s.settled ++ [(envelope.id, .ok ((publishes envelope.data).map Prod.fst))] }
    | _, _ => none
  | .revertReturned =>
    match s.reverting with
    | some (envelope, k) =>
      match envelope.failure with
      | some error => some (revertFrom processors s envelope error (k + 1))
      | none => none
    | none => none

/-- A pipeline from before its first push on. -/
def machine : Machine (State I V M ε) (Action I V M ε) where
  Init s := s = {}
  step := step processors concurrentLimit

end DispatchPipeline

end NodeCqrs
