import Mathlib.Tactic.Common
import NodeCqrs.Mongo.CatchUp

/-!
# Catching up by id

`getEventsByTypes` resumes by the order of the ids, which a process fixes when it generates them
and not when it inserts. So a reader catches up with everything inserted after its last event just
when each event was inserted under an id past all stored ones (`catchUp_iff`).
-/

namespace NodeCqrs

theorem pairwise_iff_split {α : Type*} {R : α → α → Prop} : ∀ {l : List α},
    l.Pairwise R ↔ ∀ before a after, l = before ++ a :: after → ∀ b ∈ after, R a b
  | [] => by simp
  | x :: l => by
    rw [List.pairwise_cons, pairwise_iff_split (l := l)]
    constructor
    · rintro ⟨hx, hl⟩ before a after h b hb
      rcases before with _ | ⟨y, before⟩
      · obtain ⟨rfl, rfl⟩ := List.cons.inj h
        exact hx b hb
      · exact hl before a after (List.cons.inj h).2 b hb
    · intro h
      refine ⟨fun b hb => h [] x l rfl b hb, fun before a after hl b hb => ?_⟩
      exact h (x :: before) a after (by rw [hl]; rfl) b hb

namespace MongoEventStorage

variable {A V : Type} [DecidableEq A]

omit [DecidableEq A] in
theorem mem_getEventsByTypes {coll : List (EventDocument A V)} {eventTypes : List String}
    {id : ObjectId} {d : EventDocument A V} :
    d ∈ getEventsByTypes coll eventTypes (some id)
      ↔ d ∈ coll ∧ d.type ∈ eventTypes ∧ id < d._id := by
  simp [getEventsByTypes, List.mem_insertionSort]

namespace Writers

omit [DecidableEq A] in
theorem catchUp_iff_pairwise {s : Writers A V} :
    CatchUp s ↔ s.collection.Pairwise fun d e => d._id < e._id := by
  rw [pairwise_iff_split]
  constructor
  · intro h before e after hs d hd
    exact (mem_getEventsByTypes.1 (h before e after hs [d.type] d hd (by simp))).2.2
  · intro h before e after hs eventTypes d hd ht
    refine mem_getEventsByTypes.2 ⟨?_, ht, h before e after hs d hd⟩
    simp [hs, hd]

/-- An event is inserted under an id past all the stored ones. -/
def InOrder (s : Writers A V) : WriterAction A V → Prop
  | .getNewId _ _ => True
  | .insertOne _ d => insertOne s.collection d ≠ none → ∀ e ∈ s.collection, e._id < d._id

instance (s : Writers A V) : DecidablePred (InOrder s)
  | .getNewId _ _ => inferInstanceAs (Decidable True)
  | .insertOne _ _ => inferInstanceAs (Decidable (_ → _))

theorem pairwise_step {s s' : Writers A V} {act : WriterAction A V} (h : step s act = some s') :
    (s'.collection.Pairwise fun d e => d._id < e._id)
      ↔ (s.collection.Pairwise fun d e => d._id < e._id) ∧ InOrder s act := by
  cases act with
  | getNewId p id =>
    simp only [step] at h
    split_ifs at h
    simp only [Option.some.injEq] at h
    simp [← h, InOrder]
  | insertOne p d =>
    simp only [step] at h
    split_ifs at h
    simp only [Option.some.injEq] at h
    rw [← h]
    by_cases hk : s.collection.any (sameKey d)
    · simp [InOrder, insertOne, hk]
    · simp [InOrder, insertOne, hk, List.pairwise_append]

theorem pairwise_run {l : List (WriterAction A V)} {s s' : Writers A V}
    (h : machine.run s l = some s') :
    (s'.collection.Pairwise fun d e => d._id < e._id)
      ↔ (s.collection.Pairwise fun d e => d._id < e._id) ∧ machine.Along InOrder s l :=
  Machine.run_iff_along (P := fun s => s.collection.Pairwise fun d e => d._id < e._id)
    (fun _ _ _ ht => pairwise_step ht) h

/-- At the end of a run, catching up from any stored event misses nothing if and only if the run
inserted its events in the order of their ids. -/
theorem catchUp_iff {s s' : Writers A V} {l : List (WriterAction A V)} (h0 : machine.Init s)
    (h : machine.run s l = some s') : CatchUp s' ↔ machine.Along InOrder s l := by
  rw [catchUp_iff_pairwise, pairwise_run h]
  simp [h0.2.2]

section Runs

def noEvents : Writers String Unit := { taken := fun _ => [], issued := [], collection := [] }

def changed (id : ObjectId) : EventDocument String Unit :=
  { _id := id, type := "changed", payload := () }

/-- Two processes that insert in the order their ids were issued in. -/
def issuedInOrder : List (WriterAction String Unit) :=
  [.getNewId 0 1, .getNewId 1 2, .insertOne 0 (changed 1), .insertOne 1 (changed 2)]

theorem catchUp_iff_issued : ∃ s, machine.run noEvents issuedInOrder = some s
    ∧ s.collection = [changed 1, changed 2] ∧ CatchUp s := by
  obtain ⟨s, hs, hc⟩ : ∃ s, machine.run noEvents issuedInOrder = some s
    ∧ s.collection = [changed 1, changed 2] := ⟨_, rfl, rfl⟩
  exact ⟨s, hs, hc, (catchUp_iff ⟨fun _ => rfl, rfl, rfl⟩ hs).2 (by decide)⟩

/-- The process that took its id first inserts last: a reader past the other's event never sees
its own. -/
theorem catchUp_fails : ¬ ∀ s : Writers String Unit, machine.Reach s → CatchUp s := by
  intro hall
  obtain ⟨s, hs⟩ : ∃ s, machine.run noEvents [.getNewId 0 1, .getNewId 1 2,
      .insertOne 1 (changed 2), .insertOne 0 (changed 1)] = some s := ⟨_, rfl⟩
  have h0 : machine.Init noEvents := ⟨fun _ => rfl, rfl, rfl⟩
  have hc := hall s (Machine.reach_of_run h0 hs)
  cases hs
  have := mem_getEventsByTypes.1 (hc [] (changed 2) [changed 1] rfl ["changed"] (changed 1)
    (by decide) (by decide))
  exact absurd this.2.2 (by decide)

end Runs

end Writers

end MongoEventStorage

end NodeCqrs
