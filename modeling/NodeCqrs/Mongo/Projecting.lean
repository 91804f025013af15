import NodeCqrs.Lib.Machine
import NodeCqrs.Mongo.EventLocker

/-!
# `AbstractProjection._project` over `MongoEventLocker`

Any number of deliveries of events to projections that share the lock collections. A delivery
sends an operation, the database runs it, and its answer comes, each in a step of its own; a handler
ends when it likes. A projection that crashes takes its deliveries with it.
-/

namespace NodeCqrs

namespace MongoProjecting

/-- How far a delivery is. The time is what `tryMarkAsProjecting` read from the clock. -/
inductive Phase
  | tryMarkAsProjecting
  | updateOne (now : ℤ)
  | updated (now : ℤ) (modifiedCount : ℕ)
  | insertOne (now : ℤ)
  | inserted (now : ℤ) (ok : Bool)
  | handling (now : ℤ)
  | markAsProjected (now : ℤ)
  | findOneAndUpdate (now : ℤ) (processedAt : ℤ)
  | marked (found : Bool)
  | markAsLastEvent
  | resolved
  | threw (message : String)
  | crashed
deriving DecidableEq, Repr

structure Delivery where
  event : String
  phase : Phase
deriving DecidableEq, Repr

/-- The locks, the checkpoint, the deliveries, and which events were marked as projected, by which
delivery. -/
structure Sys where
  now : ℤ := 0
  locker : MongoEventLocker := {}
  lastEvent : Option String := none
  deliveries : ℕ → Option Delivery := fun _ => none
  projected : List (String × ℕ) := []

/-- `answer` is a delivery going on to its next operation, `run` the database running it. -/
inductive Action
  | tick (ms : ℕ)
  | deliver (d : ℕ) (event : String)
  | answer (d : ℕ)
  | run (d : ℕ)
  | complete (d : ℕ)
  | fail (d : ℕ) (message : String)
  | crash (d : ℕ)
deriving DecidableEq, Repr

def Sys.goOn (s : Sys) (d : ℕ) (dl : Delivery) (phase : Phase) : Sys :=
  { s with deliveries := Function.update s.deliveries d (some { dl with phase }) }

def Sys.setLock (s : Sys) (event : String) (doc : Option EventLockDocument) : Sys :=
  { s with locker := s.locker.set event doc }

variable (eventLockTtl : ℕ) (shouldRecordLastEvent : String → Bool)

/-- A delivery up to its next operation. -/
def answer (s : Sys) (d : ℕ) (dl : Delivery) : Option Sys :=
  match dl.phase with
  | .tryMarkAsProjecting => some (s.goOn d dl (.updateOne s.now))
  | .updated now modifiedCount =>
    some (s.goOn d dl (if modifiedCount = 1 then .handling now else .insertOne now))
  | .inserted now ok => some (s.goOn d dl (if ok then .handling now else .resolved))
  | .markAsProjected now => some (s.goOn d dl (.findOneAndUpdate now s.now))
  | .marked found =>
    if found then
      some (s.goOn d dl (if shouldRecordLastEvent dl.event then .markAsLastEvent else .resolved))
    else some (s.goOn d dl (.threw s!"Event {dl.event} could not be marked as processed"))
  | _ => none

/-- The database runs the delivery's operation. -/
def run (s : Sys) (d : ℕ) (dl : Delivery) : Option Sys :=
  match dl.phase with
  | .updateOne now =>
    let (doc, modifiedCount) :=
      MongoEventLocker.updateOne eventLockTtl now (s.locker.eventLocks dl.event)
    some ((s.setLock dl.event doc).goOn d dl (.updated now modifiedCount))
  | .insertOne now =>
    let (doc, ok) := MongoEventLocker.insertOne now (s.locker.eventLocks dl.event)
    some ((s.setLock dl.event doc).goOn d dl (.inserted now ok))
  | .findOneAndUpdate _ processedAt =>
    let (doc, found) :=
      MongoEventLocker.findOneAndUpdate processedAt (s.locker.eventLocks dl.event)
    let s := if found then { s with projected := s.projected ++ [(dl.event, d)] } else s
    some ((s.setLock dl.event doc).goOn d dl (.marked found))
  | .markAsLastEvent => some ({ s with lastEvent := some dl.event }.goOn d dl .resolved)
  | _ => none

def step (s : Sys) : Action → Option Sys
  | .tick ms => some { s with now := s.now + ms }
  | .deliver d event =>
    match s.deliveries d with
    | some _ => none
    | none => some (s.goOn d { event, phase := .tryMarkAsProjecting } .tryMarkAsProjecting)
  | .answer d => (s.deliveries d).bind (answer shouldRecordLastEvent s d)
  | .run d => (s.deliveries d).bind (run eventLockTtl s d)
  | .complete d =>
    (s.deliveries d).bind fun dl =>
      match dl.phase with
      | .handling now => some (s.goOn d dl (.markAsProjected now))
      | _ => none
  | .fail d message =>
    (s.deliveries d).bind fun dl =>
      match dl.phase with
      | .handling _ => some (s.goOn d dl (.threw message))
      | _ => none
  | .crash d => (s.deliveries d).map fun dl => s.goOn d dl .crashed

/-- Nothing has been delivered yet; the collections may hold anything. -/
def Init (s : Sys) : Prop := (∀ d, s.deliveries d = none) ∧ s.projected = []

def machine : Machine Sys Action := ⟨Init, step eventLockTtl shouldRecordLastEvent⟩

/-- The delivery has locked its event and starts the handler with the answer. -/
def Phase.starts : Phase → Option ℤ
  | .updated now modifiedCount => if modifiedCount = 1 then some now else none
  | .inserted now ok => if ok then some now else none
  | _ => none

/-- The handler has completed and the event is about to be marked. -/
def Phase.marks : Phase → Option ℤ
  | .findOneAndUpdate now _ => some now
  | _ => none

/-- A handler that completes does so, `markAsProjected` included, within the TTL. -/
def InTime (s : Sys) : Action → Prop
  | .run d => ∀ dl ∈ s.deliveries d, ∀ now ∈ dl.phase.marks, s.now ≤ now + eventLockTtl
  | _ => True

/-- A handler that is started is started within the TTL. -/
def StartsInTime (s : Sys) : Action → Prop
  | .answer d => ∀ dl ∈ s.deliveries d, ∀ now ∈ dl.phase.starts, s.now ≤ now + eventLockTtl
  | _ => True

instance (s : Sys) : ∀ a, Decidable (InTime eventLockTtl s a)
  | .run d => inferInstanceAs (Decidable (∀ dl ∈ s.deliveries d, ∀ now ∈ dl.phase.marks,
      s.now ≤ now + eventLockTtl))
  | .tick _ | .deliver _ _ | .answer _ | .complete _ | .fail _ _ | .crash _ =>
    inferInstanceAs (Decidable True)

end MongoProjecting

end NodeCqrs
