import NodeCqrs.Lib.LiveMap
import NodeCqrs.Lib.Machine

/-!
# `InMemoryView`

The records of a view and the methods that write them. `updateAll` and `deleteAll` iterate over the
map itself and wait after each record they write, so other methods run in between. A callback that
is given a record may change it in place before it throws, so an update says what it leaves of the
record, and what it throws. Callbacks call no methods of the view, and keys are defined.
-/

namespace NodeCqrs

/-- What an update callback leaves of a record, and what it throws. -/
abbrev Update (R : Type) := R → R × Option String

/-- The methods that write all records a filter lets through; without a filter, all. -/
inductive BulkMethod (R : Type)
  | updateAll (filter : R → Except String Bool) (update : Update R)
  | deleteAll (filter : R → Except String Bool)

/-- Where a call is: it awaits a write, with the place of its iterator, or is settled. -/
inductive BulkPhase
  | iterating (place : ℕ)
  | resolved
  | threw (message : String)
deriving DecidableEq, Repr

structure BulkCall (R : Type) where
  method : BulkMethod R
  phase : BulkPhase

namespace InMemoryView

variable {I R : Type} [DecidableEq I] [ToString I]

/-- `create` -/
def create (map : LiveMap I R) (key : I) (value : R) : LiveMap I R × Except String Unit :=
  match map.value key with
  | some _ => (map, .error s!"Key '{key}' already exists")
  | none => (map.set key value, .ok ())

/-- `_update` -/
def update (map : LiveMap I R) (key : I) (update : Update R) : LiveMap I R × Except String Unit :=
  match map.value key with
  | none => (map, .error s!"Key '{key}' does not exist")
  | some value =>
    match update value with
    | (value', none) => (map.set key value', .ok ())
    | (value', some message) => (map.set key value', .error message)

/-- `updateEnforcingNew`, where the callback makes the new value, or throws, if there is none. -/
def updateEnforcingNew (map : LiveMap I R) (key : I) (new : Except String R) (update : Update R) :
    LiveMap I R × Except String Unit :=
  match map.value key, new with
  | none, .ok value => create map key value
  | none, .error message => (map, .error message)
  | some _, _ => InMemoryView.update map key update

end InMemoryView

namespace BulkMethod

variable {I R : Type} [DecidableEq I] [ToString I]

def filter : BulkMethod R → R → Except String Bool
  | .updateAll filter _ | .deleteAll filter => filter

/-- The iterator stops at the record: the filter lets it through, or throws. -/
def stops (method : BulkMethod R) (value : R) : Bool :=
  match method.filter value with
  | .ok b => b
  | .error _ => true

/-- What the loop does with the record it stops at. -/
def visit (method : BulkMethod R) (map : LiveMap I R) (key : I) :
    LiveMap I R × Except String Unit :=
  match (map.value key).map method.filter, method with
  | some (.error message), _ => (map, .error message)
  | _, .updateAll _ update => InMemoryView.update map key update
  | _, .deleteAll _ => (map.delete key, .ok ())

end BulkMethod

namespace InMemoryViews

/-- The records and the calls of `updateAll` and `deleteAll`; to state what holds, the records that
these calls have written, or threw at, too. -/
structure Sys (I R : Type) where
  map : LiveMap I R := .empty
  calls : ℕ → Option (BulkCall R) := fun _ => none
  visits : List (ℕ × I) := []

/-- `bulk` is a call of `updateAll` or `deleteAll` up to its first wait, and `next` what it does
from a wait to the next. -/
inductive Action (I R : Type)
  | create (key : I) (value : R)
  | update (key : I) (update : Update R)
  | updateEnforcingNew (key : I) (new : Except String R) (update : Update R)
  | delete (key : I)
  | bulk (c : ℕ) (method : BulkMethod R)
  | next (c : ℕ)

variable {I R : Type} [DecidableEq I] [ToString I]

/-- The loop of a call, from a place of its iterator to the next wait. -/
def iterate (s : Sys I R) (c : ℕ) (method : BulkMethod R) (place : ℕ) : Sys I R :=
  let settle (s : Sys I R) (phase : BulkPhase) : Sys I R :=
    { s with calls := Function.update s.calls c (some { method, phase }) }
  match s.map.find method.stops place with
  | none => settle s .resolved
  | some (key, place') =>
    let s' := { s with visits := s.visits ++ [(c, key)] }
    match method.visit s.map key with
    | (map, .ok _) => settle { s' with map } (.iterating place')
    | (map, .error message) => settle { s' with map } (.threw message)

def step (s : Sys I R) : Action I R → Option (Sys I R)
  | .create key value => some { s with map := (InMemoryView.create s.map key value).1 }
  | .update key update => some { s with map := (InMemoryView.update s.map key update).1 }
  | .updateEnforcingNew key new update =>
    some { s with map := (InMemoryView.updateEnforcingNew s.map key new update).1 }
  | .delete key => some { s with map := s.map.delete key }
  | .bulk c method =>
    match s.calls c with
    | none => some (iterate s c method 0)
    | some _ => none
  | .next c =>
    match s.calls c with
    | some { method, phase := .iterating place } => some (iterate s c method place)
    | _ => none

variable (I R) in
/-- A view of any records. -/
def machine : Machine (Sys I R) (Action I R) :=
  ⟨fun s => s.calls = (fun _ => none) ∧ s.visits = [], step⟩

end InMemoryViews

end NodeCqrs
