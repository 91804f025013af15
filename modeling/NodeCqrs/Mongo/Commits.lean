import NodeCqrs.Mongo.EventStorage

/-!
# Concurrent `commitEvents` calls

Any number of processes on one collection. A process reads an aggregate, then commits a batch
whose versions go on from the last one it read, one `insertOne` a step; when an insert fails it
deletes, in one more step, what the call had inserted. Both operations may fail, and an insert may
also be carried out and its answer be lost.
-/

namespace NodeCqrs

namespace MongoEventStorage

variable {A V : Type} [DecidableEq A]

/-- Where a process is in its read and its `commitEvents` call. -/
inductive Phase (A V : Type)
  | idle
  | read (a : A) (last : Option ℕ)
  | inserting (a : A) (last : Option ℕ) (inserted docs : List (EventDocument A V))
  | rollingBack (inserted : List (EventDocument A V))

/-- The collection, the processes, and the documents of the calls that have returned. -/
structure Commits (A V : Type) where
  collection : List (EventDocument A V)
  phase : ℕ → Phase A V
  returned : List (EventDocument A V)

inductive CommitAction (A V : Type)
  | getAggregateEvents (p : ℕ) (a : A)
  | commitEvents (p : ℕ) (docs : List (EventDocument A V))
  | insertOne (p : ℕ)
  | insertFails (p : ℕ)
  | insertUnanswered (p : ℕ)
  | deleteMany (p : ℕ)
  | deleteFails (p : ℕ)
  | returns (p : ℕ)

/-- The process a step is a step of. -/
def CommitAction.process : CommitAction A V → ℕ
  | .getAggregateEvents p _ | .commitEvents p _ | .insertOne p | .insertFails p
  | .insertUnanswered p | .deleteMany p | .deleteFails p | .returns p => p

namespace Commits

def set (s : Commits A V) (p : ℕ) (ph : Phase A V) : Commits A V :=
  { s with phase := Function.update s.phase p ph }

def setCollection (s : Commits A V) (collection : List (EventDocument A V)) : Commits A V :=
  { s with collection }

/-- The version after the last one read. -/
def nextVersion (last : Option ℕ) : ℕ := last.elim 0 (· + 1)

/-- The `catch` branch: with nothing inserted yet it throws at once. -/
def failed (s : Commits A V) (p : ℕ) (inserted : List (EventDocument A V)) : Commits A V :=
  s.set p (if inserted = [] then .idle else .rollingBack inserted)

def step (s : Commits A V) : CommitAction A V → Option (Commits A V)
  | .getAggregateEvents p a =>
    match s.phase p with
    | .idle | .read _ _ => some (s.set p (.read a (lastVersion s.collection a)))
    | _ => none
  | .commitEvents p docs =>
    match s.phase p with
    | .read a last =>
      if (∀ d ∈ docs, d.aggregateId = some a)
          ∧ Numbered (·.aggregateVersion) (nextVersion last) docs then
        some (s.set p (.inserting a last [] docs))
      else none
    | _ => none
  | .insertOne p =>
    match s.phase p with
    | .inserting a last inserted (d :: docs) =>
      match MongoEventStorage.insertOne s.collection d with
      | some collection =>
        some ((s.setCollection collection).set p (.inserting a last (inserted ++ [d]) docs))
      | none => some (s.failed p inserted)
    | _ => none
  | .insertFails p =>
    match s.phase p with
    | .inserting _ _ inserted (_ :: _) => some (s.failed p inserted)
    | _ => none
  | .insertUnanswered p =>
    match s.phase p with
    | .inserting _ _ inserted (d :: _) =>
      match MongoEventStorage.insertOne s.collection d with
      | some collection => some ((s.setCollection collection).failed p inserted)
      | none => none
    | _ => none
  | .deleteMany p =>
    match s.phase p with
    | .rollingBack inserted =>
      let ids := inserted.map EventDocument._id
      some ((s.setCollection (MongoEventStorage.deleteMany s.collection ids)).set p .idle)
    | _ => none
  | .deleteFails p =>
    match s.phase p with
    | .rollingBack _ => some (s.set p .idle)
    | _ => none
  | .returns p =>
    match s.phase p with
    | .inserting _ _ inserted [] =>
      some ({ s with returned := s.returned ++ inserted }.set p .idle)
    | _ => none

/-- An empty collection and no process at work. -/
def Init (s : Commits A V) : Prop :=
  s.collection = [] ∧ s.returned = [] ∧ ∀ p, s.phase p = .idle

def machine : Machine (Commits A V) (CommitAction A V) := ⟨Init, step⟩

/-- No `commitEvents` call is in progress. -/
def Quiescent (s : Commits A V) : Prop :=
  ∀ p, s.phase p = .idle ∨ ∃ a last, s.phase p = .read a last

/-- The aggregate has a stored event of the version. -/
def Stored (s : Commits A V) (a : A) (v : ℕ) : Prop :=
  ∃ d ∈ s.collection, d.aggregateId = some a ∧ d.aggregateVersion = some v

/-- The collection is what the calls that returned committed, and each aggregate's versions are
`0, …, n - 1`. -/
def Atomic (s : Commits A V) : Prop :=
  s.collection.Perm s.returned ∧ ∀ a, ∃ n, ∀ v, s.Stored a v ↔ v < n

end Commits

end MongoEventStorage

end NodeCqrs
