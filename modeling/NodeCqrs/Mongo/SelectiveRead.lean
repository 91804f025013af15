import NodeCqrs.Mongo.EventStorage

/-!
# `getAggregateEvents` beside other writers

One iteration of `getAggregateEvents`, each read of the collection a step: the cursor fetches the
next documents, as many as it likes, and hands them out one by one; after it has ended `findOne`
looks up the tail. Between the reads other writers append.
-/

namespace NodeCqrs

namespace MongoEventStorage

variable {A V : Type} [DecidableEq A]

/-- `AggregateEventsQueryParams`, of the snapshot only its version. -/
structure AggregateEventsQuery where
  snapshotVersion : Option ℕ := none
  eventTypes : Option (List String) := none
  tailLast : Bool := false
deriving DecidableEq, Repr

namespace AggregateEventsQuery

variable (q : AggregateEventsQuery)

def hasTypeFilter : Bool := q.eventTypes.any (· ≠ [])

/-- The event's type is asked for. -/
def wants (d : EventDocument A V) : Bool :=
  !q.hasTypeFilter || q.eventTypes.any (d.type ∈ ·)

/-- `filter` -/
def filter (a : A) (d : EventDocument A V) : Bool :=
  d.aggregateId = some a && q.snapshotVersion.all (fun v => d.aggregateVersion.any (v < ·))
    && q.wants d

/-- `tailFilter`: a snapshot version of 0 does not restrict it. -/
def tailFilter (a : A) (d : EventDocument A V) : Bool :=
  d.aggregateId = some a
    && q.snapshotVersion.all (fun v => v = 0 || d.aggregateVersion.any (v < ·))

end AggregateEventsQuery

/-- `getAggregateEvents` on a collection no one writes to. -/
def getAggregateEvents (coll : List (EventDocument A V)) (a : A) (q : AggregateEventsQuery := {}) :
    List (EventDocument A V) :=
  let docs := sortByVersion (coll.filter (q.filter a))
  docs ++ if q.tailLast && q.hasTypeFilter then
    ((sortByVersion (coll.filter (q.tailFilter a))).getLast?.filter fun tailDoc =>
      docs.getLast?.all fun lastDoc => tailDoc._id ≠ lastDoc._id).toList
  else []

/-- Where an iteration is: at the cursor, with what that has fetched and not handed out, or past it,
or all is yielded. `seen` is the aggregate's stream at the fetch that came to the end. -/
inductive Iteration (A V : Type)
  | cursor (buffer : List (EventDocument A V)) (seen : Option (List (EventDocument A V)))
  | ended (seen : List (EventDocument A V))
  | done

structure Reading (A V : Type) where
  collection : List (EventDocument A V)
  iteration : Iteration A V := .cursor [] none
  yielded : List (EventDocument A V) := []

/-- `fetch` is of `n` documents, and `atEnd` says that the cursor finds no more. -/
inductive ReadingAction (A V : Type)
  | append (d : EventDocument A V)
  | fetch (n : ℕ) (atEnd : Bool)
  | next
  | findOne

namespace Reading

/-- The aggregate's events in the order of their versions. -/
def stream (collection : List (EventDocument A V)) (a : A) : List (EventDocument A V) :=
  sortByVersion (ofAggregate collection a)

variable (a : A) (q : AggregateEventsQuery)

/-- What the cursor has still to fetch: the matches past the document fetched last. -/
def unfetched (s : Reading A V) (buffer : List (EventDocument A V)) : List (EventDocument A V) :=
  (sortByVersion (s.collection.filter (q.filter a))).filter
    fun d => (s.yielded ++ buffer).getLast?.all fun last => sortKey last < sortKey d

/-- What `findOne` with `sort: { aggregateVersion: -1 }` finds. -/
def tailDoc (s : Reading A V) : Option (EventDocument A V) :=
  (sortByVersion (s.collection.filter (q.tailFilter a))).getLast?

/-- Whether the tail is yielded: it is not the document the cursor returned last. -/
def tailIsNew (s : Reading A V) (d : EventDocument A V) : Bool :=
  s.yielded.getLast?.all fun last => d._id ≠ last._id

/-- A writer's event of the aggregate goes on from its last version. -/
def step (s : Reading A V) : ReadingAction A V → Option (Reading A V)
  | .append d =>
    if d.aggregateId = some a → ∀ e ∈ ofAggregate s.collection a, sortKey e < sortKey d then
      (insertOne s.collection d).map fun collection => { s with collection }
    else none
  | .fetch n atEnd =>
    match s.iteration with
    | .cursor buffer none =>
      let docs := s.unfetched a q buffer
      if atEnd && n < docs.length then none
      else
        let seen := if atEnd then some (stream s.collection a) else none
        some { s with iteration := .cursor (buffer ++ docs.take n) seen }
    | _ => none
  | .next =>
    match s.iteration with
    | .cursor (d :: buffer) seen =>
      some { s with iteration := .cursor buffer seen, yielded := s.yielded ++ [d] }
    | .cursor [] (some seen) => some { s with iteration := .ended seen }
    | _ => none
  | .findOne =>
    match s.iteration with
    | .ended _ =>
      if q.tailLast && q.hasTypeFilter then
        some { s with
          iteration := .done
          yielded := s.yielded ++ ((s.tailDoc a q).filter s.tailIsNew).toList }
      else some { s with iteration := .done }
    | _ => none

/-- The iteration has not begun; the collection meets the unique indexes. -/
def Init (s : Reading A V) : Prop :=
  s.iteration = .cursor [] none ∧ s.yielded = []
    ∧ s.collection.Pairwise fun d e => ¬ sameKey d e

def machine : Machine (Reading A V) (ReadingAction A V) := ⟨Init, step a q⟩

/-- The filtered-plus-tail view of a version-ordered stream. -/
def view (events : List (EventDocument A V)) : List (EventDocument A V) :=
  events.filter q.wants ++ (events.getLast?.filter fun d => !q.wants d).toList

/-- What was yielded is the view of one prefix of the aggregate's stream. -/
def Consistent (s : Reading A V) : Prop :=
  ∃ pre, pre <+: stream s.collection a ∧ s.yielded = view q pre

/-- No yielded event's version covers an event that is asked for and was not yielded. -/
def Covers (s : Reading A V) : Prop :=
  ∀ d ∈ stream s.collection a, q.wants d → ∀ e ∈ s.yielded, sortKey d ≤ sortKey e → d ∈ s.yielded

end Reading

end MongoEventStorage

end NodeCqrs
