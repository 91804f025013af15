import NodeCqrs.Event
import NodeCqrs.Lib.Machine
import NodeCqrs.Sqlite.EventLocker

/-!
# `AbstractProjection` over a persistent event locker

Any number of processes, each with an instance of one projection, over one event log and one
locker. `project()` and `restore()` calls go on one await at a time, a handler may reject, and a
process may crash and lose its calls. The system also keeps which log entries' handlers have
completed.
-/

namespace NodeCqrs

/-- A projection class: what it handles, its checkpoint policy over an event and the `meta` it came
with, and its locker's key and TTL. -/
structure Projection (I V M K : Type) where
  handles : List String
  shouldRecordLastEvent : Event I V → Option M → Bool := fun _ _ => true
  getEventId : Event I V → K
  eventLockTtl : ℤ := 15000

/-- An event with its place in the log. -/
abbrev Logged (I V : Type) := Event I V × ℕ

/-- Where `_project` is with an event: what it awaits next. -/
inductive Projecting
  | tryMarkAsProjecting
  | handler
  | markAsProjected
  | markAsLastEvent
deriving DecidableEq, Repr

/-- How a step of `_project` ends. -/
inductive Outcome
  | awaits (next : Projecting)
  | returns
  | throws
deriving DecidableEq, Repr

/-- A call under way. `restoring` has the stream's events still to project, the first of them being
projected, the last event restored and, to state what the stream was, the log's length when it was
read. -/
inductive ProjectionCall (I V M : Type)
  | project (event : Logged I V) (metadata : Option M) (awaiting : Projecting)
  | getLastEvent
  | getEventsByTypes (lastEvent : Option (Event I V))
  | restoring (todo : List (Logged I V)) (awaiting : Projecting)
      (lastRestoredEvent : Option (Event I V)) (length : ℕ)

namespace Projection

variable {I V M K : Type} [DecidableEq K]

structure Sys (I V M K : Type) where
  now : ℤ := 0
  log : List (Event I V) := []
  locker : SqliteEventLocker K (Event I V) := {}
  calls : ℕ → Option (ℕ × ProjectionCall I V M) := fun _ => none
  delivered : ℕ → ℕ := fun _ => 0
  completed : List ℕ := []

/-- `project` and `restore` begin call `c` of process `p`; `next` is its next await, `rejects` the
handler's rejection, and `returns` the end of a restore whose stream has ended. -/
inductive Action (I V M : Type)
  | tick (ms : ℕ)
  | append (event : Event I V)
  | project (c p i : ℕ) (metadata : Option M)
  | restore (c p : ℕ)
  | next (c : ℕ)
  | rejects (c : ℕ)
  | returns (c : ℕ)
  | crash (p : ℕ)

variable (P : Projection I V M K)

/-- `SqliteEventStorage.getEventsByTypes`: the later rows of the types; it throws on an event
without an id and yields nothing after one that is not stored. -/
def getEventsByTypes (log : List (Event I V)) (afterEvent : Option (Event I V)) :
    Option (List (Logged I V)) :=
  match afterEvent with
  | none => some (log.zipIdx.filter (·.1.type ∈ P.handles))
  | some event =>
    if event.id.any (· ≠ "") then
      match log.findIdx? fun e => P.getEventId e = P.getEventId event with
      | none => some []
      | some i => some (log.zipIdx.filter fun e => e.1.type ∈ P.handles && i < e.2)
    else none

namespace Sys

omit [DecidableEq K] in
def set (s : Sys I V M K) (c p : ℕ) (call : ProjectionCall I V M) : Sys I V M K :=
  { s with calls := Function.update s.calls c (some (p, call)) }

omit [DecidableEq K] in
def clear (s : Sys I V M K) (c : ℕ) : Sys I V M K :=
  { s with calls := Function.update s.calls c none }

omit [DecidableEq K] in
def setLocker (s : Sys I V M K) (locker : SqliteEventLocker K (Event I V)) : Sys I V M K :=
  { s with locker }

omit [DecidableEq K] in
/-- Process `p` has been delivered the log's entries before place `n`. -/
def setDelivered (s : Sys I V M K) (p n : ℕ) : Sys I V M K :=
  { s with delivered := Function.update s.delivered p n }

end Sys

/-- One await of `_project`; `record` is what `shouldRecordLastEvent` says. -/
def project (s : Sys I V M K) (event : Logged I V) (record : Bool) :
    Projecting → Sys I V M K × Outcome
  | .tryMarkAsProjecting =>
    let (locker, eventLockObtained) :=
      s.locker.tryMarkAsProjecting P.eventLockTtl s.now (P.getEventId event.1)
    (s.setLocker locker, if eventLockObtained then .awaits .handler else .returns)
  | .handler => ({ s with completed := event.2 :: s.completed }, .awaits .markAsProjected)
  | .markAsProjected =>
    match s.locker.markAsProjected s.now (P.getEventId event.1) with
    | some locker => (s.setLocker locker, if record then .awaits .markAsLastEvent else .returns)
    | none => (s, .throws)
  | .markAsLastEvent => (s.setLocker (s.locker.markAsLastEvent event.1), .returns)

/-- What a call does next, of process `p`. -/
def next (s : Sys I V M K) (c p : ℕ) : ProjectionCall I V M → Option (Sys I V M K)
  | .project event metadata awaiting =>
    match P.project s event (P.shouldRecordLastEvent event.1 metadata) awaiting with
    | (s', .awaits awaiting') => some (s'.set c p (.project event metadata awaiting'))
    | (s', .returns) | (s', .throws) => some (s'.clear c)
  | .getLastEvent => some (s.set c p (.getEventsByTypes s.locker.getLastEvent))
  | .getEventsByTypes lastEvent =>
    match P.getEventsByTypes s.log lastEvent with
    | some todo => some (s.set c p (.restoring todo .tryMarkAsProjecting none s.log.length))
    | none => some (s.clear c)
  | .restoring (event :: todo) awaiting last length =>
    match P.project s event (P.shouldRecordLastEvent event.1 none) awaiting with
    | (s', .awaits awaiting') =>
      some (s'.set c p (.restoring (event :: todo) awaiting' last length))
    | (s', .returns) =>
      some (s'.set c p (.restoring todo .tryMarkAsProjecting (some event.1) length))
    | (s', .throws) => some (s'.clear c)
  | .restoring [] _ _ _ => none

/-- The call awaits its handler. -/
def handling : ProjectionCall I V M → Bool
  | .project _ _ .handler | .restoring (_ :: _) .handler _ _ => true
  | _ => false

def step (s : Sys I V M K) : Action I V M → Option (Sys I V M K)
  | .tick ms => some { s with now := s.now + ms }
  | .append event => some { s with log := s.log ++ [event] }
  | .project c p i metadata =>
    match s.calls c, s.log[i]? with
    | none, some event =>
      if event.type ∈ P.handles ∧ s.delivered p ≤ i then
        some ((s.setDelivered p (i + 1)).set c p
          (.project (event, i) metadata .tryMarkAsProjecting))
      else none
    | _, _ => none
  | .restore c p => if s.calls c = none then some (s.set c p .getLastEvent) else none
  | .next c => (s.calls c).bind fun (p, call) => P.next s c p call
  | .rejects c => (s.calls c).bind fun (_, call) =>
    if handling call then some (s.clear c) else none
  | .returns c =>
    match s.calls c with
    | some (_, .restoring [] _ last _) =>
      some ((s.setLocker (last.elim s.locker s.locker.markAsLastEvent)).clear c)
    | _ => none
  | .crash p => some { s with calls := fun c => (s.calls c).filter (·.1 ≠ p) }

/-- An empty log and empty tables. -/
def Init (s : Sys I V M K) : Prop :=
  s.log = [] ∧ s.locker = {} ∧ (∀ c, s.calls c = none) ∧ s.completed = []

def machine : Machine (Sys I V M K) (Action I V M) := ⟨Init, P.step⟩

/-- The handlers of the handled events before place `n` of the log have completed. -/
def CompletedBefore (s : Sys I V M K) (n : ℕ) : Prop :=
  ∀ i event, i < n → s.log[i]? = some event → event.type ∈ P.handles → i ∈ s.completed

end Projection

end NodeCqrs
