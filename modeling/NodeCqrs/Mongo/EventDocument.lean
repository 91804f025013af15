import Mathlib.Data.Nat.Digits.Defs
import NodeCqrs.Event
import NodeCqrs.Mongo.EventStorage
import NodeCqrs.Sqlite.Guid

/-!
# Events as documents

`commitEvents` of `MongoEventStorage`, its calls one at a time. An event without an id is given a
new one.
-/

namespace NodeCqrs

/-- The hex digits of an ObjectId; those of another text are no ObjectId. -/
def isHexObjectId (value : String) : Bool :=
  value.length = 24 && value.toList.all fun c => (hexValue c).isSome

/-- The number the hex digits are. -/
def hexNumber (digits : List Char) : ℕ :=
  Nat.ofDigits 16 (digits.reverse.map fun c => (hexValue c).getD 0)

def hexObjectId (hex : String) : ObjectId := Fin.ofNat (2 ^ 96) (hexNumber hex.toList)

/-- `new ObjectId(String(id))`, which throws for a text that is none. -/
def toObjectId (id : String) : Option ObjectId :=
  if isHexObjectId id then some (hexObjectId id) else none

/-- The last hex digits of a number, as many as asked for. -/
def hexDigits : ℕ → ℕ → List Char
  | 0, _ => []
  | width + 1, n => hexDigits width (n / 16) ++ [Nat.digitChar (n % 16)]

/-- `_id.toHexString()` -/
def toHexString (id : ObjectId) : String := String.ofList (hexDigits 24 id.val)

/-- An aggregate id as it is stored. -/
inductive StoredId
  | objectId (id : ObjectId)
  | string (id : String)
deriving DecidableEq, Repr

def toObjectIdOrString (aggregateId : String) : StoredId :=
  (toObjectId aggregateId).elim (.string aggregateId) .objectId

namespace MongoEventStorage

variable {V : Type}

abbrev Doc (V : Type) := EventDocument StoredId V

def documentOf (event : Event String V) (_id : ObjectId) : Doc V where
  _id := _id
  type := event.type
  aggregateId := (event.aggregateId.filter (truthy ·)).map toObjectIdOrString
  aggregateVersion := event.aggregateVersion
  sagaOrigins := event.sagaOrigins
  payload := event.payload
  context := event.context

/-- `toEventDocument` -/
def toEventDocument (newObjectId : ObjectId) (event : Event String V) : Option (Doc V) :=
  (event.id.elim (some newObjectId) toObjectId).map (documentOf event)

/-- `toEvent` -/
def toEvent (doc : Doc V) : Event String V where
  id := some (toHexString doc._id)
  type := doc.type
  aggregateId := (doc.aggregateId.map fun
    | .objectId id => toHexString id
    | .string id => id).filter (truthy ·)
  aggregateVersion := doc.aggregateVersion
  sagaOrigins := doc.sagaOrigins
  payload := doc.payload
  context := doc.context

inductive CommitError
  | error (message : String)
  | concurrencyError (message : String)
  | notAnObjectId
deriving DecidableEq, Repr

/-- The loop of `commitEvents`. Where an insert fails, the documents inserted are deleted. -/
def insertEach (coll : List (Doc V)) (insertedIds : List ObjectId) :
    List (Doc V) → Bool × List (Doc V)
  | [] => (true, coll)
  | doc :: docs =>
    match insertOne coll doc with
    | some coll => insertEach coll (insertedIds ++ [doc._id]) docs
    | none => (false, if insertedIds = [] then coll else deleteMany coll insertedIds)

/-- `commitEvents`, with the ids given to events that have none. -/
def commitEvents (coll : List (Doc V)) (events : List (Event String V))
    (ignoreConcurrencyError : Bool) (newObjectIds : ℕ → ObjectId) :
    Except CommitError (List (Event String V)) × List (Doc V) :=
  if ignoreConcurrencyError then
    (.error (.error "ignoreConcurrencyError is not supported by MongoEventStorage"), coll)
  else
    match events.zipIdx.mapM fun (event, i) => toEventDocument (newObjectIds i) event with
    | none => (.error .notAnObjectId, coll)
    | some docs =>
      match insertEach coll [] docs with
      | (true, coll) =>
        (.ok ((events.zip docs).map fun (event, doc) =>
          { event with id := some (toHexString doc._id) }), coll)
      | (false, coll) =>
        (.error (.concurrencyError "Concurrency conflict: duplicate event version"), coll)

end MongoEventStorage

end NodeCqrs
