import NodeCqrs.Proofs.ObjectStorage
import NodeCqrs.Redis.ObjectStorage

/-!
# Linearizability of `RedisObjectStorage`

`SCRIPT_UPDATE_IF_VERSION` compares versions, and a record that is deleted and created again counts
from one again: an update that read the old record then writes over the new one
(`linearized_fails`). Every other run is linearized (`linearized`).
-/

namespace NodeCqrs

open Versioned (Effect)
open ObjectStorage

namespace RedisObjectStorage

variable {D : Type}

theorem lawful : Lawful (redisObjectStorage : ObjectStorage D) := by
  intro read updated r r' h
  change SCRIPT_UPDATE_IF_VERSION read updated r = (r', .updated) at h
  unfold SCRIPT_UPDATE_IF_VERSION at h
  split at h
  · simp at h
  · rename_i cur
    split_ifs at h with hv
    · obtain ⟨rfl, -⟩ := Prod.mk.inj h
      have hv : cur.version = read.version := by
        simpa using (Bool.and_eq_true_iff.1 hv).1
      exact ⟨rfl, cur, rfl, hv⟩
    · simp at h

/-- In every run in which no write of an update finds the version it read on a record that was
deleted since, the effects of the calls, one after another, make the record, and a call that threw
is not among them. -/
theorem linearized {id : String} {s : Sys D}
    (h : (machine redisObjectStorage id).ReachIf Undeleted s) :
    Linearized s ∧ ∀ c, s.Threw c → c ∉ s.effects.map (·.1) :=
  ⟨(inv lawful h).toLinearized, fun _ => (inv lawful h).not_mem_of_threw⟩

/-- Two updates read the record; the second writes it first, and the first reads it again. -/
theorem linearized_retried :
    ∃ s : Sys ℕ, s.record = some { data := 1100, version := 3 } ∧ Linearized s := by
  let m := machine (redisObjectStorage : ObjectStorage ℕ) "a"
  let add : Method ℕ := .update fun n => .ok (n + 100)
  let mul : Method ℕ := .update fun n => .ok (n * 10)
  have h0 : m.ReachIf Undeleted {} := .init rfl
  have h1 := h0.step (Action.call 0 (.create 100) 100) trivial rfl
  have h2 := h1.step (Action.command 0) (by rintro call _ _ _ _ hc hp; cases hc; cases hp) rfl
  have h3 := h2.step (Action.call 1 add 100) trivial rfl
  have h4 := h3.step (Action.command 1) (by rintro call _ _ _ _ hc hp; cases hc; cases hp) rfl
  have h5 := h4.step (Action.call 2 mul 100) trivial rfl
  have h6 := h5.step (Action.command 2) (by rintro call _ _ _ _ hc hp; cases hc; cases hp) rfl
  have h7 := h6.step (Action.command 2)
    (by rintro call _ _ _ _ hc hp -; cases hc; cases hp; exact List.not_mem_nil) rfl
  have h8 := h7.step (Action.command 1) (by
    rintro call _ _ _ _ hc hp hv
    cases hc
    cases hp
    exact absurd hv (by decide)) rfl
  have h9 := h8.step (Action.command 1) (by rintro call _ _ _ _ hc hp; cases hc; cases hp) rfl
  have h10 := h9.step (Action.command 1)
    (by rintro call _ _ _ _ hc hp -; cases hc; cases hp; exact List.not_mem_nil) rfl
  exact ⟨_, rfl, (linearized h10).1⟩

/-- An update reads the record, which is deleted and created again before it writes. -/
theorem linearized_fails :
    ¬ ∀ (id : String) (s : Sys ℕ), (machine redisObjectStorage id).Reach s → Linearized s := by
  intro hall
  let add : Method ℕ := .update fun n => .ok (n + 100)
  obtain ⟨s, hs, hr⟩ : ∃ s, (machine (redisObjectStorage : ObjectStorage ℕ) "a").run {}
      [.call 0 (.create 1) 100, .command 0, .call 1 add 100, .command 1, .call 2 .delete 100,
        .command 2, .call 3 (.create 5) 100, .command 3, .command 1] = some s ∧
      s.record ≠ (Versioned.replay (s.effects.map (·.2))).getD none := ⟨_, rfl, by decide⟩
  have hl := hall "a" s (Machine.reach_of_run rfl hs)
  rw [hl.replay] at hr
  exact hr rfl

end RedisObjectStorage

end NodeCqrs
