import NodeCqrs.EventDispatchPipeline
import NodeCqrs.EventDispatcher
import NodeCqrs.Lib.Parts
import NodeCqrs.Utils.Assert

/-!
# `EventDispatcher` and its pipelines

Named pipelines, each over its own processors, which batches are routed to. `M` are the values of
`meta`, with `undefined` among them.
-/

namespace NodeCqrs.DispatchPipelines

open DispatchPipeline (Batch State)

variable {I V M ε : Type}

/-- An `EventDispatchPipeline`, as it is set up and with what its batches are at. -/
structure EventDispatchPipeline (I V M ε : Type) where
  processors : List DispatchPipeline.Processor := []
  concurrentLimit : ℕ
  processing : Bool := false
  state : State I V M ε := {}

def EventDispatchPipeline.addProcessor (pipeline : EventDispatchPipeline I V M ε)
    (preprocessor : DispatchPipeline.Processor) : Except String (EventDispatchPipeline I V M ε) :=
  if pipeline.processing then .error "pipeline processing already started"
  else .ok { pipeline with processors := pipeline.processors ++ [preprocessor] }

structure EventDispatcher (I V M ε : Type) where
  concurrentLimit : ℕ
  eventDispatchRouter : List (Event I V) → M → Option String
  pipelines : String → Option (EventDispatchPipeline I V M ε) := fun _ => none

namespace EventDispatcher

def DEFAULT_PIPELINE : String := "default"

def DEFAULT_CONCURRENT_LIMIT : ℕ := 100

/-- `DEFAULT_ROUTER`, for what `meta?.origin` is. -/
def DEFAULT_ROUTER (origin : M → Option String) (_ : List (Event I V)) (metadata : M) :
    Option String := origin metadata

variable (d : EventDispatcher I V M ε)

/-- `#pipelines.set` -/
def set (name : String) (pipeline : EventDispatchPipeline I V M ε) : EventDispatcher I V M ε :=
  { d with pipelines := Function.update d.pipelines name (some pipeline) }

def addPipeline (name : String) (processors : List DispatchPipeline.Processor)
    (concurrentLimit : Option ℕ) : Except String (EventDispatcher I V M ε) := do
  assertDefined name "pipeline name"
  if (d.pipelines name).isSome then throw ("pipeline \"" ++ name ++ "\" already exists")
  let pipeline ← processors.foldlM EventDispatchPipeline.addProcessor
    { concurrentLimit := concurrentLimit.getD d.concurrentLimit }
  return d.set name pipeline

def addPipelineProcessor (preprocessor : DispatchPipeline.Processor)
    (pipelineName : Option String) : Except String (EventDispatcher I V M ε) :=
  let name := pipelineName.getD DEFAULT_PIPELINE
  match d.pipelines name with
  | none => .error ("Pipeline \"" ++ name ++ "\" does not exist")
  | some pipeline => do
    let pipeline ← pipeline.addProcessor preprocessor
    return d.set name pipeline

/-- The pipelines that `constructor` adds. -/
def addPipelines (eventDispatchPipeline : Option (List DispatchPipeline.Processor))
    (eventDispatchPipelines : Option (List (String × List DispatchPipeline.Processor))) :
    Except String (EventDispatcher I V M ε) :=
  match eventDispatchPipelines, eventDispatchPipeline with
  | some pipelines, _ => pipelines.foldlM (fun d p => d.addPipeline p.1 p.2 none) d
  | none, some processors => d.addPipeline DEFAULT_PIPELINE processors none
  | none, none => d.addPipeline DEFAULT_PIPELINE [] none

/-- `constructor`, with `eventDispatchPipeline`, `eventDispatchPipelines`, `eventDispatchRouter` and
`eventDispatcherConfig.concurrentLimit` where they are given. -/
def create (origin : M → Option String)
    (eventDispatchPipeline : Option (List DispatchPipeline.Processor))
    (eventDispatchPipelines : Option (List (String × List DispatchPipeline.Processor)))
    (eventDispatchRouter : Option (List (Event I V) → M → Option String))
    (concurrentLimit : Option ℤ) : Except String (EventDispatcher I V M ε) := do
  if let some limit := concurrentLimit then
    assertNonNegativeInteger limit "eventDispatcherConfig.concurrentLimit"
  addPipelines {
    concurrentLimit := (concurrentLimit.map Int.toNat).getD DEFAULT_CONCURRENT_LIMIT
    eventDispatchRouter := eventDispatchRouter.getD (DEFAULT_ROUTER origin)
  } eventDispatchPipeline eventDispatchPipelines

/-- The batch that `dispatch` makes of the events. -/
def batch (events : List (Event I V)) (metadata : M) : Batch I V M :=
  events.map fun event => { event := some event, metadata }

/-- The pipeline that `dispatch` pushes the batch to. -/
def route (events : List (Event I V)) (metadata : M) : Except String String :=
  if !isEventSet events || events.isEmpty then
    .error "dispatch requires a non-empty array of events"
  else
    let desired := (d.eventDispatchRouter events metadata).getD DEFAULT_PIPELINE
    if (d.pipelines desired).isSome then .ok desired
    else if (d.pipelines DEFAULT_PIPELINE).isSome then .ok DEFAULT_PIPELINE
    else .error ("No \"" ++ desired ++ "\" pipeline configured")

end EventDispatcher

/-- A call of `dispatch`, with the dispatcher as it found it. -/
structure Dispatch (I V M ε : Type) where
  dispatcher : EventDispatcher I V M ε
  events : List (Event I V)
  metadata : M

/-- With the calls of `dispatch` and, pipeline by pipeline, what was done. -/
structure Sys (I V M ε : Type) where
  dispatcher : EventDispatcher I V M ε
  calls : List (Dispatch I V M ε) := []
  log : List (String × DispatchPipeline.Action I V M ε) := []

inductive Action (I V M ε : Type)
  | addPipeline (name : String) (processors : List DispatchPipeline.Processor)
      (concurrentLimit : Option ℕ)
  | addPipelineProcessor (preprocessor : DispatchPipeline.Processor) (pipelineName : Option String)
  | dispatch (events : List (Event I V)) (metadata : M)
  /-- A pipeline goes on with what it was given. -/
  | pipeline (name : String) (action : DispatchPipeline.Action I V M ε)

/-- A method that throws leaves the dispatcher as it was. -/
def Sys.after (s : Sys I V M ε) : Except String (EventDispatcher I V M ε) → Sys I V M ε
  | .ok dispatcher => { s with dispatcher }
  | .error _ => s

def Sys.call (s : Sys I V M ε) (events : List (Event I V)) (metadata : M) : Sys I V M ε :=
  { s with calls := s.calls ++ [{ dispatcher := s.dispatcher, events, metadata }] }

variable [Truthy ε] [Truthy V]

/-- A pipeline does something; `#ensureProcessingStarted` comes before a push. -/
def Sys.act (s : Sys I V M ε) (name : String) (action : DispatchPipeline.Action I V M ε) :
    Option (Sys I V M ε) := do
  let pipeline ← s.dispatcher.pipelines name
  let state ← DispatchPipeline.step pipeline.processors pipeline.concurrentLimit pipeline.state
    action
  return { s with
    dispatcher := s.dispatcher.set name { pipeline with processing := true, state }
    log := s.log ++ [(name, action)] }

def step (s : Sys I V M ε) : Action I V M ε → Option (Sys I V M ε)
  | .addPipeline name processors concurrentLimit =>
    some (s.after (s.dispatcher.addPipeline name processors concurrentLimit))
  | .addPipelineProcessor preprocessor pipelineName =>
    some (s.after (s.dispatcher.addPipelineProcessor preprocessor pipelineName))
  | .dispatch events metadata =>
    match s.dispatcher.route events metadata with
    | .error _ => some (s.call events metadata)
    | .ok name =>
      (s.call events metadata).act name (.push (EventDispatcher.batch events metadata))
  | .pipeline _ (.push _) => none
  | .pipeline name action =>
    if (s.dispatcher.pipelines name).any (·.processing) then s.act name action else none

/-- A dispatcher has been made. -/
def machine (I V M ε : Type) [Truthy ε] [Truthy V] : Machine (Sys I V M ε) (Action I V M ε) where
  Init s := (∃ origin pipeline pipelines router limit,
    EventDispatcher.create origin pipeline pipelines router limit = .ok s.dispatcher)
    ∧ s.calls = [] ∧ s.log = []
  step := step

end NodeCqrs.DispatchPipelines
