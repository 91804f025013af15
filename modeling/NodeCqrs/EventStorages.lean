import NodeCqrs.Lib.Ledger
import NodeCqrs.Lib.Replies
import NodeCqrs.Mongo.EventDocument
import NodeCqrs.Sqlite.EventStorage

/-!
# Two event storages

The same `commitEvents` calls, one after another, on `SqliteEventStorage` and on
`MongoEventStorage`.
-/

namespace NodeCqrs

variable {V : Type}

/-- 24 hex digits in lower case. -/
def IsHexId (str : String) : Prop :=
  str.length = 24 ∧ ∀ c ∈ str.toList, c ∈ "0123456789abcdef".toList

/-- An event with hex ids. No property of its `sagaOrigins` is there twice. -/
structure IsHexEvent (e : Event String V) : Prop where
  id : ∃ id, e.id = some id ∧ IsHexId id
  aggregateId : ∀ aggregateId ∈ e.aggregateId, IsHexId aggregateId
  sagaOrigins : ∀ sagaOrigins ∈ e.sagaOrigins, (sagaOrigins.map Prod.fst).Nodup

abbrev HexEvent (V : Type) := { e : Event String V // IsHexEvent e }

def SqliteEventStorage.perform (s : SqliteEventStorage V) (batch : List (HexEvent V)) :
    Except (DispatchError String) (List (Event String V)) × SqliteEventStorage V :=
  match s.commitEvents (batch.map (·.val)) false with
  | .ok s => (.ok (batch.map (·.val)), s)
  | .error error => (.error error, s)

def MongoEventStorage.perform (newObjectIds : ℕ → ObjectId) (coll : List (Doc V))
    (batch : List (HexEvent V)) :
    Except CommitError (List (Event String V)) × List (Doc V) :=
  commitEvents coll (batch.map (·.val)) false newObjectIds

namespace HexEvent

/-- The document of the event. -/
def document (e : HexEvent V) : MongoEventStorage.Doc V :=
  MongoEventStorage.documentOf e.val (hexObjectId (e.val.id.getD ""))

/-- The two events have one id, or are one version of one aggregate. -/
def sameVersion (e e' : HexEvent V) : Bool :=
  e.val.id = e'.val.id || (e.val.aggregateId.isSome && e.val.aggregateVersion.isSome
    && e.val.aggregateId = e'.val.aggregateId && e.val.aggregateVersion = e'.val.aggregateVersion)

/-- The two events have the one of the fields `aggregateId` and `aggregateVersion`, both the same
one, and neither has the other. -/
def sameLoneField (e e' : HexEvent V) : Bool :=
  (e.val.aggregateId.isSome ^^ e.val.aggregateVersion.isSome)
    && e.val.aggregateId = e'.val.aggregateId && e.val.aggregateVersion = e'.val.aggregateVersion

end HexEvent

end NodeCqrs
