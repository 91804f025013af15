import NodeCqrs.EventDispatchPipeline
import NodeCqrs.Lib.Promises

/-!
# What becomes of published events

The end of the pipelines of an `EventDispatcher`: batches that came through one are published event
by event, and nobody waits. `#pending` keeps the promises `drain` waits for.
-/

namespace NodeCqrs

/-- What `publish` makes: its promise and, among the others, those of the handlers it called. -/
structure Published where
  promises : Promises
  result : ℕ
  handlers : List ℕ := []

/-- `IEventBus`, as a state `B` with calls `C` that subscribe and unsubscribe. -/
structure EventBus (B C I V : Type) where
  call : B → C → Option B
  publish : B → Promises → Event I V → Published

namespace Publishing

variable {B C I V M : Type}

/-- A published event, of which pipeline and which dispatch. -/
structure Publication where
  pipeline : ℕ
  dispatch : ℕ
  handlers : List ℕ
  result : ℕ
  caught : ℕ
deriving DecidableEq, Repr

/-- `pending` is the `#pending` of each pipeline. To state what `drain` waits for: how many
dispatches have resolved, the events published, and the promises of the calls to `drain`, each with
the dispatches resolved before it. -/
structure State (B : Type) where
  bus : B
  promises : Promises := {}
  pending : ℕ → List ℕ := fun _ => []
  dispatched : ℕ := 0
  publications : List Publication := []
  drains : List (ℕ × ℕ) := []

/-- `consume` is the loop of `#ensureProcessingStarted` taking a batch without an error, `settle`
what was called outside answering, and `react` a promise becoming what those it is made of say; a
handler called then may throw. -/
inductive Action (C I V M : Type)
  | call (c : C)
  | consume (pipeline : ℕ) (data : DispatchPipeline.Batch I V M)
  | settle (promise : ℕ) (status : PromiseStatus)
  | react (promise : ℕ) (threw : Bool)
  | drain

variable (eventBus : EventBus B C I V) (pipelines : ℕ) (onError : Bool)

/-- One event of the loop over a batch. -/
def publish (pipeline : ℕ) (s : State B) (event : Event I V) : State B :=
  let { promises, result, handlers } := eventBus.publish s.bus s.promises event
  let p := promises.count
  { s with
    promises := (promises.create (.onRejected result onError)).create (.onFinally p)
    pending := Function.update s.pending pipeline (s.pending pipeline ++ [p])
    publications := s.publications ++
      [{ pipeline, dispatch := s.dispatched, handlers, result, caught := p }] }

/-- `EventDispatchPipeline.drain` of the pipelines from one on, `EventDispatcher.drain` waiting for
all of them. -/
def drainFrom (pending : ℕ → List ℕ) (ps : Promises) : ℕ → Promises
  | 0 => ps
  | n + 1 => (drainFrom pending ps n).create (.allSettled (pending n))

/-- What a promise's reaction leaves of a pipeline's `#pending`: `finally` deletes the promise it is
attached to, which is one of a single pipeline. -/
def delete : PromiseOrigin → List ℕ → List ℕ
  | .onFinally p, pending => pending.erase p
  | _, pending => pending

variable [Truthy V]

def step (s : State B) : Action C I V M → Option (State B)
  | .call c => (eventBus.call s.bus c).map fun bus => { s with bus }
  | .consume pipeline data =>
    if pipeline < pipelines then
      let s' := ((DispatchPipeline.publishes data).map Prod.fst).foldl
        (publish eventBus onError pipeline) s
      some { s' with dispatched := s'.dispatched + 1 }
    else none
  | .settle promise status =>
    (s.promises.settle promise status).map fun promises => { s with promises }
  | .react promise threw =>
    (s.promises.react promise threw).map fun promises => { s with
      promises
      pending := fun k => delete (s.promises.origin promise) (s.pending k) }
  | .drain =>
    let ps := drainFrom s.pending s.promises pipelines
    some { s with
      promises := ps.create (.all (List.range' s.promises.count pipelines))
      drains := s.drains ++ [(ps.count, s.dispatched)] }

/-- The pipelines from before the first dispatch on. -/
def machine (bus : B) : Machine (State B) (Action C I V M) where
  Init s := s = { bus }
  step := step eventBus pipelines onError

end Publishing

/-- Any event bus: what becomes of a call to `publish` is said from outside. -/
def anyEventBus (I V : Type) : EventBus Unit Empty I V where
  call _ c := nomatch c
  publish _ ps _ := { promises := ps.create .outer, result := ps.count }

end NodeCqrs
