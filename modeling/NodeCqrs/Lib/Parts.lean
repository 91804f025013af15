import Mathlib.Tactic.Common
import NodeCqrs.Lib.Machine

/-!
# Machines side by side

What several machines have done is one list of actions, each under the name of its machine. The part
of one machine is what it has done itself.
-/

variable {K S A : Type*} [DecidableEq K]

/-- The actions under the name. -/
def part (k : K) (log : List (K × A)) : List A :=
  log.filterMap fun p => if p.1 = k then some p.2 else none

variable {k k' : K} {a : A} {log : List (K × A)}

@[simp] theorem part_nil : part k ([] : List (K × A)) = [] := rfl

theorem part_concat_self : part k (log ++ [(k, a)]) = part k log ++ [a] := by simp [part]

theorem part_concat_of_ne (h : k' ≠ k) : part k (log ++ [(k', a)]) = part k log := by
  simp [part, h]

theorem mem_part : a ∈ part k log ↔ (k, a) ∈ log := by
  constructor
  · intro h
    obtain ⟨⟨k', a'⟩, hp, hs⟩ := List.mem_filterMap.1 h
    split_ifs at hs with hk
    obtain rfl := Option.some.inj hs
    exact hk ▸ hp
  · exact fun h => List.mem_filterMap.2 ⟨(k, a), h, if_pos rfl⟩

theorem part_eq_nil (h : ∀ p ∈ log, p.1 ≠ k) : part k log = [] :=
  List.eq_nil_iff_forall_not_mem.2 fun _ ha => h _ (mem_part.1 ha) rfl

/-- A machine goes on with its own part. -/
theorem run_part_concat {M : Machine S A} {s t u : S} (hr : M.run s (part k log) = some t)
    (hst : M.step t a = some u) : M.run s (part k (log ++ [(k, a)])) = some u := by
  rw [part_concat_self, Machine.run_append, hr, Option.bind_some, Machine.run_cons, hst]
  rfl
