import NodeCqrs.Mongo.ObjectStorage
import NodeCqrs.Proofs.ObjectStorage

/-!
# `MongoObjectStorage` loses no update

Where nothing deletes, the version of the record is the number of the writes so far, so a write
that finds the version it read finds the record it read.
-/

namespace NodeCqrs

open Machine (ReachIf)
open Versioned (Effect versionOf versionOf_replayFrom)
open ObjectStorage

namespace MongoObjectStorage

variable {D : Type}

theorem lawful : Lawful (mongoObjectStorage : ObjectStorage D) := by
  intro read updated r r' h
  change findOneAndUpdate read updated r = (r', .updated) at h
  unfold findOneAndUpdate at h
  split at h
  · simp at h
  · rename_i cur
    split_ifs at h with hv
    · obtain ⟨rfl, -⟩ := Prod.mk.inj h
      exact ⟨rfl, cur, rfl, hv⟩
    · simp at h

/-- No call is one of `delete`. -/
def NoDelete (_ : Sys D) : Action D → Prop
  | .call _ .delete _ => False
  | _ => True

structure Undisturbed (s : Sys D) : Prop extends Inv s where
  writes : ∀ c call, s.calls c = some call → call.method.effect ≠ .delete

theorem Undisturbed.not_deleted {s : Sys D} (h : Undisturbed s) :
    Effect.delete ∉ s.effects.map (·.2) := by
  intro hm
  obtain ⟨p, hp, he⟩ := List.mem_map.1 hm
  obtain ⟨call, _, hc, -⟩ := h.resolves p hp
  exact h.writes p.1 call hc ((h.methods p hp call hc).symm.trans he)

theorem undisturbed {id : String} {s : Sys D}
    (h : (machine mongoObjectStorage id).ReachIf NoDelete s) : Undisturbed s := by
  refine ReachIf.invariant (P := Undisturbed) (fun s (h0 : s = {}) => ?_) ?_ h
  · subst h0
    exact ⟨inv_init, by rintro c call ⟨⟩⟩
  · intro s a s' hi hC hst
    refine ⟨inv_step lawful hi.toInv ?_ hst, fun c call' hc => ?_⟩
    · cases a with
      | call c method maxRetries => trivial
      | command c =>
        exact fun _ _ _ _ _ _ _ _ hm => hi.not_deleted (List.mem_of_mem_drop hm)
    · rcases step_method hst hc with ⟨call, hc, hm⟩ | rfl
      · rw [hm]
        exact hi.writes c call hc
      · rcases hm : call'.method with _ | _ | _ | _ <;> simp_all [Method.effect, NoDelete]

/-- In every run without deletes: the data is the fold of the callbacks of the calls that took
effect, the version is how many they are, a call that resolves took effect once, and a call that
throws took none. -/
theorem no_update_lost {id : String} {s : Sys D}
    (h : (machine mongoObjectStorage id).ReachIf NoDelete s) :
    Linearized s ∧ versionOf s.record = s.effects.length ∧
      (∀ c, s.Resolved c → (s.effects.map (·.1)).count c = 1) ∧
      ∀ c, s.Threw c → c ∉ s.effects.map (·.1) := by
  have hi := undisturbed h
  refine ⟨hi.toLinearized, ?_, ?_, fun _ => hi.not_mem_of_threw⟩
  · have := versionOf_replayFrom hi.not_deleted hi.replay
    simpa [versionOf] using this
  · rintro c ⟨call, deleted, hc, hp⟩
    rw [hi.once.count, if_pos]
    refine hi.settled c call deleted hc hp ?_
    rintro rfl
    have hs := hi.sound c call hc
    rw [Sound, hp] at hs
    exact hi.writes c call hc (hs (by simp))

/-- Two clients without retries on a missing record: one creates it, the other throws. -/
theorem no_update_lost_conflict :
    ∃ s : Sys ℕ, s.record = some { data := 1, version := 1 } ∧
      s.Threw 1 ∧ (s.effects.map (·.1)).count 0 = 1 ∧ 1 ∉ s.effects.map (·.1) := by
  let next : Method ℕ := .updateEnforcingNew fun r => .ok (r.getD 0 + 1)
  have h0 : (machine (mongoObjectStorage : ObjectStorage ℕ) "a").ReachIf NoDelete {} := .init rfl
  have h1 := h0.step (Action.call 0 next 0) trivial rfl
  have h2 := h1.step (Action.call 1 next 0) trivial rfl
  have h3 := h2.step (Action.command 0) trivial rfl
  have h4 := h3.step (Action.command 1) trivial rfl
  have h5 := h4.step (Action.command 0) trivial rfl
  have h6 := h5.step (Action.command 1) trivial rfl
  obtain ⟨-, -, hresolved, hthrew⟩ := no_update_lost h6
  exact ⟨_, rfl, ⟨_, _, rfl, rfl⟩, hresolved 0 ⟨_, _, rfl, rfl⟩, hthrew 1 ⟨_, _, rfl, rfl⟩⟩

end MongoObjectStorage

end NodeCqrs
