import Mathlib.Data.List.Basic
import Mathlib.Data.Nat.Notation
import Mathlib.Tactic.Common

/-!
# Records with a version

A record counts the writes since it was created, and a deletion starts it over. So as long as it is
not deleted, a record that has a version it had before has not been written in between
(`replay_eq_of_version`), which is what a write on a condition on the version rests on.
-/

structure Versioned (D : Type*) where
  data : D
  version : ℕ
deriving DecidableEq, Repr

namespace Versioned

variable {D : Type*}

/-- What a call does to a record at once. A write computes its data from the present ones, if
there is a record, and may fail. -/
inductive Effect (D : Type*)
  | write (f : Option D → Option D)
  | delete

/-- The version of a record, or that of none. -/
def versionOf (r : Option (Versioned D)) : ℕ := r.elim 0 (·.version)

def Effect.apply (r : Option (Versioned D)) : Effect D → Option (Option (Versioned D))
  | .write f => (f (r.map (·.data))).map fun data => some { data, version := versionOf r + 1 }
  | .delete => some none

def replayFrom (r : Option (Versioned D)) (l : List (Effect D)) :
    Option (Option (Versioned D)) := l.foldlM Effect.apply r

/-- The record after the effects of a list, each on what the one before it left; none of them may
fail. -/
def replay (l : List (Effect D)) : Option (Option (Versioned D)) := replayFrom none l

@[simp] theorem replay_nil : replay ([] : List (Effect D)) = some none := rfl

theorem replay_append (l l' : List (Effect D)) :
    replay (l ++ l') = (replay l).bind fun r => replayFrom r l' := by
  simp only [replay, replayFrom, List.foldlM_append]
  rfl

theorem replay_concat (l : List (Effect D)) (e : Effect D) :
    replay (l ++ [e]) = (replay l).bind e.apply := by
  rw [replay_append]
  congr 1
  funext r
  simp [replayFrom]

theorem replayFrom_cons {r r' : Option (Versioned D)} {e : Effect D} {l : List (Effect D)}
    (h : replayFrom r (e :: l) = some r') :
    ∃ r₁, e.apply r = some r₁ ∧ replayFrom r₁ l = some r' := by
  simpa [replayFrom, Option.bind_eq_some_iff] using h

/-- A record counts the writes. -/
theorem versionOf_replayFrom : ∀ {l : List (Effect D)} {r r' : Option (Versioned D)},
    Effect.delete ∉ l → replayFrom r l = some r' → versionOf r' = versionOf r + l.length
  | [], r, r', _, h => by
    obtain rfl := Option.some.inj h
    rfl
  | .delete :: l, r, r', hl, _ => absurd List.mem_cons_self hl
  | .write f :: l, r, r', hl, h => by
    obtain ⟨r₁, h₁, h⟩ := replayFrom_cons h
    obtain ⟨data, -, rfl⟩ := Option.map_eq_some_iff.1 h₁
    have := versionOf_replayFrom (fun hm => hl (List.mem_cons_of_mem _ hm)) h
    simp only [versionOf, Option.elim_some, List.length_cons] at this ⊢
    omega

/-- Unless it was deleted in between, a record with the version it had is the record it was. -/
theorem replay_eq_of_version {l l' : List (Effect D)} {r r' : Option (Versioned D)}
    (hl : Effect.delete ∉ l') (h : replay l = some r) (h' : replay (l ++ l') = some r')
    (hv : versionOf r' = versionOf r) : r' = r := by
  rw [replay_append, h, Option.bind_some] at h'
  have := versionOf_replayFrom hl h'
  obtain rfl : l' = [] := List.length_eq_zero_iff.1 (by omega)
  exact (Option.some.inj h').symm

end Versioned
