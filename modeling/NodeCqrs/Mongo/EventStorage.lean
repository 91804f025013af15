import Mathlib.Algebra.GroupWithZero.Nat
import Mathlib.Data.Nat.Notation
import Mathlib.Data.List.Sort
import Mathlib.Logic.Function.Basic
import NodeCqrs.Lib.Machine
import NodeCqrs.Lib.Numbered

/-!
# `MongoEventStorage`

The events collection in insertion order, and the operations the storage runs on it: `insertOne`
under the unique indexes, `deleteMany`, and the finds with their sorts.
-/

namespace NodeCqrs

/-- The twelve bytes of an ObjectId, compared as MongoDB compares them. -/
abbrev ObjectId := Fin (2 ^ 96)

/-- There are object ids, for the literals. -/
instance objectIdNeZero : NeZero (2 ^ 96) := inferInstance

instance objectIdLawfulBEq : LawfulBEq ObjectId := inferInstance

/-- `EventDocument`, over the stored form `A` of an aggregate id. -/
structure EventDocument (A V : Type) where
  _id : ObjectId
  type : String
  aggregateId : Option A := none
  aggregateVersion : Option ℕ := none
  sagaOrigins : Option (List (String × String)) := none
  payload : V
  context : Option V := none
deriving DecidableEq, Repr

namespace MongoEventStorage

variable {A V : Type} [DecidableEq A]

/-- The two documents share `_id`, or their entry of the unique sparse index on
`{ aggregateId, aggregateVersion }`: a document with either field has one, a missing field
counting as null. -/
def sameKey (d e : EventDocument A V) : Bool :=
  d._id = e._id || ((d.aggregateId.isSome || d.aggregateVersion.isSome)
    && d.aggregateId = e.aggregateId && d.aggregateVersion = e.aggregateVersion)

/-- `insertOne`; with a duplicate key it fails with code 11000. -/
def insertOne (coll : List (EventDocument A V)) (d : EventDocument A V) :
    Option (List (EventDocument A V)) :=
  if coll.any (sameKey d) then none else some (coll ++ [d])

/-- `deleteMany({ _id: { $in: ids } })` -/
def deleteMany (coll : List (EventDocument A V)) (ids : List ObjectId) :
    List (EventDocument A V) :=
  coll.filter fun d => d._id ∉ ids

/-- The documents a find's filter on `aggregateId` lets through. -/
def ofAggregate (coll : List (EventDocument A V)) (a : A) : List (EventDocument A V) :=
  coll.filter fun d => d.aggregateId = some a

/-- Where a document stands in `sort: { aggregateVersion: 1 }`: a missing version comes first. -/
def sortKey (d : EventDocument A V) : ℕ := d.aggregateVersion.elim 0 (· + 1)

/-- `sort: { aggregateVersion: 1 }` -/
def sortByVersion (docs : List (EventDocument A V)) : List (EventDocument A V) :=
  docs.insertionSort fun d e => sortKey d ≤ sortKey e

/-- The version of the last event `getAggregateEvents` yields of an aggregate. -/
def lastVersion (coll : List (EventDocument A V)) (a : A) : Option ℕ :=
  (sortByVersion (ofAggregate coll a)).getLast?.bind (·.aggregateVersion)

/-- `getEventsByTypes`: the events of the types with a greater id, in the order of the ids. -/
def getEventsByTypes (coll : List (EventDocument A V)) (eventTypes : List String)
    (afterEvent : Option ObjectId) : List (EventDocument A V) :=
  (coll.filter fun d => d.type ∈ eventTypes && afterEvent.all (· < d._id)).insertionSort
    fun d e => d._id ≤ e._id

end MongoEventStorage

end NodeCqrs
