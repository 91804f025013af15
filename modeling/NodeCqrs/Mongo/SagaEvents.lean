import NodeCqrs.Mongo.CatchUp
import NodeCqrs.Mongo.EventDocument
import NodeCqrs.Utils.SagaId

/-!
# `getSagaEvents`

What a saga is restored from, where several processes take ids and insert events under them later.
-/

namespace NodeCqrs

/-- `doc.sagaOrigins?.[sagaDescriptor]` -/
def EventDocument.sagaOrigin {A V : Type} (doc : EventDocument A V) (sagaDescriptor : String) :
    Option String :=
  doc.sagaOrigins.bind (·.lookup sagaDescriptor)

namespace MongoEventStorage

variable {V : Type}

/-- What a filter finds at the path `sagaOrigins.<sagaDescriptor>`. With a dot it leads into an
object, and the origins are texts. -/
def sagaOriginAt (doc : Doc V) (sagaDescriptor : String) : Option String :=
  if '.' ∈ sagaDescriptor.toList then none else doc.sagaOrigin sagaDescriptor

/-- The `$or` of the filter, but for the origin event. -/
def ofSaga (sagaDescriptor originEventId : String) (originObjectId beforeObjectId : ObjectId)
    (doc : Doc V) : Bool :=
  sagaOriginAt doc sagaDescriptor = some originEventId
    && originObjectId < doc._id && doc._id < beforeObjectId

/-- The find with `sort: { _id: 1 }`. -/
def findSagaEvents (coll : List (Doc V)) (sagaDescriptor originEventId : String)
    (originObjectId beforeObjectId : ObjectId) : List (Doc V) :=
  (coll.filter fun doc => doc._id = originObjectId
    || ofSaga sagaDescriptor originEventId originObjectId beforeObjectId doc).insertionSort
      fun d e => d._id ≤ e._id

/-- `findOne({ _id })` -/
def findById (coll : List (Doc V)) (_id : ObjectId) : Option (Doc V) := coll.find? (·._id = _id)

def objectIdOrThrow (id : String) : Except String ObjectId :=
  (toObjectId id).elim (.error "input must be a 24 character hex string") .ok

def getSagaEvents (coll : List (Doc V)) (sagaId : String) (beforeEvent : Event String V) :
    Except String (List (Event String V)) := do
  let beforeEventId ← assertString (beforeEvent.id.getD "") "beforeEvent.id"
  let (sagaDescriptor, originEventId) ← parseSagaId sagaId
  if beforeEvent.sagaOrigin sagaDescriptor ≠ some originEventId then
    .error "beforeEvent.sagaOrigins does not match sagaId"
  let originObjectId ← objectIdOrThrow originEventId
  let beforeObjectId ← objectIdOrThrow beforeEventId
  if (findById coll originObjectId).isNone then
    .error ("origin event " ++ originEventId ++ " not found")
  if (findById coll beforeObjectId).isNone then
    .error ("beforeEvent " ++ beforeEventId ++ " not found")
  return (findSagaEvents coll sagaDescriptor originEventId originObjectId beforeObjectId).map toEvent

namespace Writers

/-- An event of a saga is inserted when the origin event of the saga is there. -/
def Causal (s : Writers StoredId V) : WriterAction StoredId V → Prop
  | .getNewId _ _ => True
  | .insertOne _ e => ∀ sagaDescriptor originEventId,
    e.sagaOrigin sagaDescriptor = some originEventId →
      ∃ origin ∈ s.collection, toHexString origin._id = originEventId

/-- For each event of a saga, what is yielded is the origin event and then the events of the saga
that were inserted before it. -/
def SagasComplete (s : Writers StoredId V) : Prop :=
  ∀ before e after, s.collection = before ++ e :: after →
    ∀ sagaDescriptor originEventId sagaId, e.sagaOrigin sagaDescriptor = some originEventId →
      makeSagaId sagaDescriptor originEventId = .ok sagaId →
      ∃ origin ∈ s.collection, toHexString origin._id = originEventId ∧
        ∃ rest, getSagaEvents s.collection sagaId (toEvent e) = .ok (toEvent origin :: rest) ∧
          rest.Perm ((before.filter fun d =>
            d.sagaOrigin sagaDescriptor = some originEventId).map toEvent)

/-- Where the saga of an event that is inserted has events already, their ids lie between that of
the origin event and that of the new one, and the descriptor is a field's name. -/
def SagaInOrder (s : Writers StoredId V) : WriterAction StoredId V → Prop
  | .getNewId _ _ => True
  | .insertOne _ e => insertOne s.collection e ≠ none →
    ∀ sagaDescriptor originEventId, sagaDescriptor ≠ "" →
      e.sagaOrigin sagaDescriptor = some originEventId →
      ∀ origin ∈ s.collection, toHexString origin._id = originEventId →
        ∀ d ∈ s.collection, d.sagaOrigin sagaDescriptor = some originEventId →
          '.' ∉ sagaDescriptor.toList ∧ origin._id < d._id ∧ d._id < e._id

end Writers

end MongoEventStorage

end NodeCqrs
