import NodeCqrs.AggregateCommandHandler

/-!
# `#aggregatesCache` with any locker

The `execute` calls of one handler as far as they use its cache, over an `ILocker` whose `acquire`
may resolve at any time or reject, and with an event store and aggregates that may reject.
-/

namespace NodeCqrs

/-- What an `execute` call awaits: its lock, the cached or the created aggregate, `aggregate.handle`,
or one of the two dispatches. -/
inductive ExecuteAwait
  | acquire
  | aggregate
  | handle
  | dispatch
  | forceDispatch
deriving DecidableEq, Repr

/-- A promise of an aggregate is its number. -/
structure AggregatesCache (I : Type) where
  aggregatesCache : MapAssertable I ℕ Unit := {}
  nextPromise : ℕ := 0
  calls : ℕ → Option (Option I × ExecuteAwait) := fun _ => none

namespace AggregatesCache

/-- How what a call awaits ends: `restored`, `dispatched` and `forceDispatched` say whether it
resolved, and `handled` of how many events, if it did. After a failed dispatch the resolver
decides. -/
inductive Action (I : Type)
  | execute (c : ℕ) (aggregateId : Option I)
  | acquired (c : ℕ)
  | acquireRejects (c : ℕ)
  | restored (c : ℕ) (resolved : Bool)
  | handled (c : ℕ) (events : Option ℕ)
  | dispatched (c : ℕ)
  | dispatchRejects (c : ℕ) (decision : RetryOnConcurrencyErrorDecision)
  | forceDispatched (c : ℕ) (resolved : Bool)
deriving DecidableEq, Repr

variable {I : Type} [DecidableEq I] [Truthy I]

omit [DecidableEq I] [Truthy I] in
/-- `() => this.#restoreAggregate(aggregateId)` -/
def restoreAggregate (_ : Unit) (nextPromise : ℕ) : ℕ × ℕ := (nextPromise + 1, nextPromise)

omit [DecidableEq I] [Truthy I] in
def setCall (s : AggregatesCache I) (c : ℕ) (aggregateId : Option I) (await : ExecuteAwait) :
    AggregatesCache I :=
  { s with calls := Function.update s.calls c (some (aggregateId, await)) }

omit [DecidableEq I] [Truthy I] in
def clearCall (s : AggregatesCache I) (c : ℕ) : AggregatesCache I :=
  { s with calls := Function.update s.calls c none }

/-- `#allocateCacheEntry` -/
def allocateCacheEntry (s : AggregatesCache I) (aggregateId : Option I) : AggregatesCache I :=
  match aggregateId.filter (truthy ·) with
  | none => s
  | some id =>
    let (aggregatesCache, nextPromise, _) :=
      s.aggregatesCache.assert restoreAggregate id () s.nextPromise
    { s with aggregatesCache, nextPromise }

/-- `#resetCacheEntry` -/
def resetCacheEntry (s : AggregatesCache I) (aggregateId : Option I) : AggregatesCache I :=
  match aggregateId.filter (truthy ·) with
  | none => s
  | some id => { s with aggregatesCache := s.aggregatesCache.setLazy id () }

/-- `#releaseCacheEntry` -/
def releaseCacheEntry (s : AggregatesCache I) (aggregateId : Option I) : AggregatesCache I :=
  match aggregateId.filter (truthy ·) with
  | none => s
  | some id => { s with aggregatesCache := s.aggregatesCache.release id }

/-- The start of an attempt. -/
def getAggregate (s : AggregatesCache I) (c : ℕ) (aggregateId : Option I) : AggregatesCache I :=
  match aggregateId.filter (truthy ·) with
  | none => s.setCall c aggregateId .aggregate
  | some id =>
    let (aggregatesCache, nextPromise, _) := s.aggregatesCache.get restoreAggregate id s.nextPromise
    { s with aggregatesCache, nextPromise }.setCall c aggregateId .aggregate

/-- The outer `finally`. -/
def finish (s : AggregatesCache I) (c : ℕ) (aggregateId : Option I) : AggregatesCache I :=
  (s.releaseCacheEntry aggregateId).clearCall c

/-- The call goes on from what it awaits. -/
def resume (s : AggregatesCache I) (c : ℕ) (await : ExecuteAwait)
    (next : Option I → AggregatesCache I) : Option (AggregatesCache I) :=
  match s.calls c with
  | some (aggregateId, await') => if await' = await then some (next aggregateId) else none
  | none => none

def step (s : AggregatesCache I) : Action I → Option (AggregatesCache I)
  | .execute c aggregateId =>
    if (s.calls c).isSome then none
    else
      let s := s.allocateCacheEntry aggregateId
      some <|
        if (aggregateId.filter (truthy ·)).isSome then s.setCall c aggregateId .acquire
        else s.getAggregate c aggregateId
  | .acquired c => s.resume c .acquire (s.getAggregate c)
  -- `acquire` is awaited before the `try` block
  | .acquireRejects c => s.resume c .acquire fun _ => s.clearCall c
  | .restored c resolved => s.resume c .aggregate fun aggregateId =>
    if resolved then s.setCall c aggregateId .handle else s.finish c aggregateId
  | .handled c events => s.resume c .handle fun aggregateId =>
    match events with
    | none => (s.resetCacheEntry aggregateId).finish c aggregateId
    | some 0 => s.finish c aggregateId
    | some (_ + 1) => s.setCall c aggregateId .dispatch
  | .dispatched c => s.resume c .dispatch (s.finish c)
  | .dispatchRejects c decision => s.resume c .dispatch fun aggregateId =>
    let s := s.resetCacheEntry aggregateId
    match decision with
    | .no => s.finish c aggregateId
    | .yes => s.getAggregate c aggregateId
    | .ignore => s.setCall c aggregateId .forceDispatch
  | .forceDispatched c _ => s.resume c .forceDispatch (s.finish c)

def machine : Machine (AggregatesCache I) (Action I) := ⟨(· = {}), step⟩

end AggregatesCache

end NodeCqrs
