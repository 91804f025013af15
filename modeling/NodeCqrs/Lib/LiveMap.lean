import Mathlib.Logic.Function.Basic
import NodeCqrs.Lib.LiveSet

/-!
# Maps that change while they are iterated

A map whose keys are a `LiveSet`: a key keeps its place while it is set, and gets a new one at the
end when it is set after it was deleted.
-/

structure LiveMap (K V : Type*) where
  keys : LiveSet K
  value : K → Option V
  mem_keys : ∀ k, k ∈ keys.toList ↔ (value k).isSome

namespace LiveMap

variable {K V : Type*}

def empty : LiveMap K V := ⟨.empty, fun _ => none, by simp⟩

theorem exists_value {m : LiveMap K V} {k : K} (h : k ∈ m.keys.toList) :
    ∃ v, m.value k = some v :=
  Option.isSome_iff_exists.1 ((m.mem_keys k).1 h)

theorem mem_of_value {m : LiveMap K V} {k : K} {v : V} (h : m.value k = some v) :
    k ∈ m.keys.toList :=
  (m.mem_keys k).2 (by rw [h]; rfl)

section Change

variable [DecidableEq K]

def set (m : LiveMap K V) (k : K) (v : V) : LiveMap K V where
  keys := m.keys.add k
  value := Function.update m.value k (some v)
  mem_keys k' := by
    by_cases hk : k' = k
    · rw [hk, LiveSet.toList_add]
      split_ifs with h <;> simp [h]
    · rw [LiveSet.toList_add, Function.update_of_ne hk, ← m.mem_keys]
      split_ifs <;> simp [hk]

def delete (m : LiveMap K V) (k : K) : LiveMap K V where
  keys := m.keys.delete k
  value := Function.update m.value k none
  mem_keys k' := by
    have hnd : m.keys.toList.Nodup := m.keys.nodup
    rw [LiveSet.toList_delete, hnd.mem_erase_iff]
    by_cases hk : k' = k
    · simp [hk]
    · rw [Function.update_of_ne hk, ← m.mem_keys, and_iff_right hk]

@[simp] theorem set_keys (m : LiveMap K V) (k : K) (v : V) : (m.set k v).keys = m.keys.add k := rfl

@[simp] theorem set_value (m : LiveMap K V) (k : K) (v : V) :
    (m.set k v).value = Function.update m.value k (some v) := rfl

@[simp] theorem delete_keys (m : LiveMap K V) (k : K) : (m.delete k).keys = m.keys.delete k := rfl

@[simp] theorem delete_value (m : LiveMap K V) (k : K) :
    (m.delete k).value = Function.update m.value k none := rfl

end Change

/-- What an iterator that skips the entries whose values do not meet `p` meets next, and its place
after that. -/
def find (m : LiveMap K V) (p : V → Bool) (i : ℕ) : Option (K × ℕ) :=
  m.keys.find (fun k => (m.value k).any p) i

variable {p : V → Bool} {P : V → Prop}

/-- Everything before the place has `P`. -/
def Behind (m : LiveMap K V) (P : V → Prop) (i : ℕ) : Prop :=
  i ≤ m.keys.entries.length ∧ ∀ k ∈ m.keys.passed i, ∀ v, m.value k = some v → P v

theorem behind_zero (m : LiveMap K V) (P : V → Prop) : m.Behind P 0 :=
  ⟨Nat.zero_le _, fun _ h => by cases h⟩

/-- An iterator that finds nothing more has everything behind it. -/
theorem Behind.of_find_eq_none {m : LiveMap K V} {i : ℕ} (h : m.Behind P i)
    (hp : ∀ v, p v = false → P v) (hf : m.find p i = none) {k : K} {v : V}
    (hv : m.value k = some v) : P v := by
  rcases (LiveSet.mem_toList i).1 (mem_of_value hv) with hk | hk
  · exact h.2 k hk v hv
  · refine hp v ?_
    simpa [hv] using LiveSet.rest_of_find_eq_none hf k hk

variable [DecidableEq K]

/-- An entry that is set keeps `P`, if it had it. -/
theorem Behind.set {m : LiveMap K V} {i : ℕ} {k : K} {v : V} (h : m.Behind P i)
    (hv : ∀ v', m.value k = some v' → P v' → P v) : (m.set k v).Behind P i := by
  refine ⟨Nat.le_trans h.1 (LiveSet.le_length_add _ _), fun k' hk' v' hv' => ?_⟩
  rw [set_keys, LiveSet.passed_add k h.1] at hk'
  by_cases hkk : k' = k
  · subst hkk
    obtain rfl : v = v' := by simpa using hv'
    obtain ⟨v₀, hv₀⟩ := exists_value ((LiveSet.mem_toList i).2 (.inl hk'))
    exact hv v₀ hv₀ (h.2 k' hk' v₀ hv₀)
  · rw [set_value, Function.update_of_ne hkk] at hv'
    exact h.2 k' hk' v' hv'

theorem Behind.delete {m : LiveMap K V} {i : ℕ} (h : m.Behind P i) (k : K) :
    (m.delete k).Behind P i := by
  refine ⟨Nat.le_trans h.1 (Nat.le_of_eq (LiveSet.length_delete ..).symm), fun k' hk' v' hv' => ?_⟩
  rw [delete_keys, LiveSet.passed_delete] at hk'
  by_cases hkk : k' = k
  · simp [hkk] at hv'
  · rw [delete_value, Function.update_of_ne hkk] at hv'
    exact h.2 k' (List.mem_of_mem_erase hk') v' hv'

/-- The iterator goes on to what it finds; what it skips has `P`, and what it finds gets it or is
deleted. -/
theorem Behind.find {m m' : LiveMap K V} {i j : ℕ} {k : K} (h : m.Behind P i)
    (hp : ∀ v, p v = false → P v) (hf : m.find p i = some (k, j))
    (hm : (∃ v, m' = m.set k v ∧ P v) ∨ m' = m.delete k) : m'.Behind P j := by
  obtain ⟨skipped, hpassed, hskip, -, hj⟩ := LiveSet.passed_of_find_eq_some h.1 hf
  -- but for what was found, all that is passed then has `P`
  have hothers : ∀ k' ∈ m.keys.passed j, k' ≠ k → ∀ v, m.value k' = some v → P v := by
    intro k' hk' hne v hv
    rw [hpassed, List.append_assoc, List.mem_append, List.mem_append] at hk'
    rcases hk' with hk' | hk' | hk'
    · exact h.2 k' hk' v hv
    · refine hp v ?_
      simpa [hv] using hskip k' hk'
    · exact absurd (List.mem_singleton.1 hk') hne
  rcases hm with ⟨v, rfl, hv⟩ | rfl
  · refine ⟨Nat.le_trans hj (LiveSet.le_length_add _ _), fun k' hk' v' hv' => ?_⟩
    rw [set_keys, LiveSet.passed_add k hj] at hk'
    by_cases hkk : k' = k
    · obtain rfl : v = v' := by simpa [hkk] using hv'
      exact hv
    · rw [set_value, Function.update_of_ne hkk] at hv'
      exact hothers k' hk' hkk v' hv'
  · refine ⟨Nat.le_trans hj (Nat.le_of_eq (LiveSet.length_delete ..).symm), fun k' hk' v' hv' => ?_⟩
    rw [delete_keys, LiveSet.passed_delete] at hk'
    by_cases hkk : k' = k
    · simp [hkk] at hv'
    · rw [delete_value, Function.update_of_ne hkk] at hv'
      exact hothers k' (List.mem_of_mem_erase hk') hkk v' hv'

end LiveMap
