import Mathlib.Data.Int.Notation
import Mathlib.Data.Nat.Notation
import Mathlib.Logic.Function.Basic

/-!
# `MongoEventLocker`

The event locks of one projection name and schema version, by event id, and the operations on them.
A filter for null finds a missing field too, so a field that is missing is none here.
-/

namespace NodeCqrs

structure EventLockDocument where
  processingAt : Option ℤ
  processedAt : Option ℤ
deriving DecidableEq, Repr

structure MongoEventLocker where
  eventLocks : String → Option EventLockDocument := fun _ => none

namespace MongoEventLocker

/-- `updateOne` of `tryMarkAsProjecting`: what it leaves, and its `modifiedCount`. -/
def updateOne (eventLockTtl : ℕ) (now : ℤ) :
    Option EventLockDocument → Option EventLockDocument × ℕ
  | none => (none, 0)
  | some doc =>
    if doc.processedAt = none ∧ ∀ t ∈ doc.processingAt, t < now - eventLockTtl then
      let claimed := { processingAt := some now, processedAt := none }
      (some claimed, if claimed = doc then 0 else 1)
    else (some doc, 0)

/-- `insertOne` of `tryMarkAsProjecting`; where the document exists it fails with code 11000. -/
def insertOne (now : ℤ) : Option EventLockDocument → Option EventLockDocument × Bool
  | none => (some { processingAt := some now, processedAt := none }, true)
  | some doc => (some doc, false)

/-- `findOneAndUpdate` of `markAsProjected`, and whether it has a result. -/
def findOneAndUpdate (now : ℤ) : Option EventLockDocument → Option EventLockDocument × Bool
  | none => (none, false)
  | some doc =>
    if doc.processedAt = none then (some { doc with processedAt := some now }, true)
    else (some doc, false)

def set (s : MongoEventLocker) (eventId : String) (doc : Option EventLockDocument) :
    MongoEventLocker :=
  { s with eventLocks := Function.update s.eventLocks eventId doc }

def tryMarkAsProjecting (eventLockTtl : ℕ) (now : ℤ) (s : MongoEventLocker) (eventId : String) :
    MongoEventLocker × Bool :=
  let (doc, modifiedCount) := updateOne eventLockTtl now (s.eventLocks eventId)
  if modifiedCount = 1 then (s.set eventId doc, true)
  else
    let (doc, inserted) := insertOne now doc
    (s.set eventId doc, inserted)

/-- With no result, `markAsProjected` throws. -/
def markAsProjected (now : ℤ) (s : MongoEventLocker) (eventId : String) :
    Option MongoEventLocker :=
  let (doc, found) := findOneAndUpdate now (s.eventLocks eventId)
  if found then some (s.set eventId doc) else none

end MongoEventLocker

end NodeCqrs
