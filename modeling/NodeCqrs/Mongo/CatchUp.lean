import NodeCqrs.Mongo.EventStorage

/-!
# Ids generated before the insert

Any number of processes take event ids from `getNewId()` and insert events under them later, in
any order.
-/

namespace NodeCqrs

namespace MongoEventStorage

variable {A V : Type} [DecidableEq A]

/-- The ids a process has taken and not used yet, those issued so far, and the collection. -/
structure Writers (A V : Type) where
  taken : ℕ → List ObjectId
  issued : List ObjectId
  collection : List (EventDocument A V)

inductive WriterAction (A V : Type)
  | getNewId (p : ℕ) (id : ObjectId)
  | insertOne (p : ℕ) (d : EventDocument A V)

namespace Writers

/-- An id is issued once. An insert that fails on a duplicate key stores nothing. -/
def step (s : Writers A V) : WriterAction A V → Option (Writers A V)
  | .getNewId p id =>
    if id ∈ s.issued then none
    else some { s with
      taken := Function.update s.taken p (id :: s.taken p)
      issued := id :: s.issued }
  | .insertOne p d =>
    if d._id ∈ s.taken p then
      some { s with
        taken := Function.update s.taken p ((s.taken p).erase d._id)
        collection := (insertOne s.collection d).getD s.collection }
    else none

def Init (s : Writers A V) : Prop :=
  (∀ p, s.taken p = []) ∧ s.issued = [] ∧ s.collection = []

def machine : Machine (Writers A V) (WriterAction A V) := ⟨Init, step⟩

/-- Whoever has stored event `e` as the last one seen gets every event inserted after it. -/
def CatchUp (s : Writers A V) : Prop :=
  ∀ before e after, s.collection = before ++ e :: after → ∀ eventTypes, ∀ d ∈ after,
    d.type ∈ eventTypes → d ∈ getEventsByTypes s.collection eventTypes (some e._id)

end Writers

end MongoEventStorage

end NodeCqrs
