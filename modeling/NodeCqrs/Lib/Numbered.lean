import Mathlib.Data.List.Basic
import Mathlib.Data.Nat.Notation
import Mathlib.Tactic.Common

/-!
# Consecutive numbering

`Numbered f k l` says that the numbers `f` reads off the entries of `l` are `k, k + 1, …` with no
gap and no repetition.
-/

variable {α : Type*}

/-- The entries carry the numbers `k, k + 1, …` in order. -/
def Numbered (f : α → Option ℕ) : ℕ → List α → Prop
  | _, [] => True
  | k, x :: l => f x = some k ∧ Numbered f (k + 1) l

namespace Numbered

variable {f : α → Option ℕ}

instance decidable (f : α → Option ℕ) : ∀ (k : ℕ) (l : List α), Decidable (Numbered f k l)
  | _, [] => inferInstanceAs (Decidable True)
  | k, x :: l =>
    have := decidable f (k + 1) l
    inferInstanceAs (Decidable (f x = some k ∧ Numbered f (k + 1) l))

@[simp] theorem nil (k : ℕ) : Numbered f k [] := trivial

@[simp] theorem cons_iff {k : ℕ} {x : α} {l : List α} :
    Numbered f k (x :: l) ↔ f x = some k ∧ Numbered f (k + 1) l := Iff.rfl

theorem append_iff : ∀ {l l' : List α} {k : ℕ},
    Numbered f k (l ++ l') ↔ Numbered f k l ∧ Numbered f (k + l.length) l'
  | [], l', k => by simp
  | x :: l, l', k => by
    simp only [List.cons_append, cons_iff, append_iff (l := l), List.length_cons, and_assoc]
    rw [show k + 1 + l.length = k + (l.length + 1) by omega]

theorem append {l l' : List α} {k : ℕ} (h : Numbered f k l) (h' : Numbered f (k + l.length) l') :
    Numbered f k (l ++ l') := append_iff.2 ⟨h, h'⟩

/-- Each entry's number is in range. -/
theorem bounds : ∀ {l : List α} {k : ℕ} {x : α}, Numbered f k l → x ∈ l →
    ∃ v, f x = some v ∧ k ≤ v ∧ v < k + l.length
  | y :: l, k, x, h, hx => by
    rcases List.mem_cons.1 hx with rfl | hx
    · exact ⟨k, h.1, Nat.le_refl k, by simp⟩
    · obtain ⟨v, hv, hle, hlt⟩ := bounds h.2 hx
      exact ⟨v, hv, by omega, by simp only [List.length_cons]; omega⟩

theorem pairwise_ne : ∀ {l : List α} {k : ℕ}, Numbered f k l → l.Pairwise fun x y => f x ≠ f y
  | [], _, _ => List.Pairwise.nil
  | x :: l, k, h => by
    refine List.pairwise_cons.2 ⟨fun y hy heq => ?_, pairwise_ne h.2⟩
    obtain ⟨v, hv, hle, -⟩ := bounds h.2 hy
    have hk : v = k := Option.some.inj ((hv.symm.trans heq.symm).trans h.1)
    omega

/-- Each number in range is some entry's. -/
theorem exists_mem : ∀ {l : List α} {k v : ℕ}, Numbered f k l → k ≤ v → v < k + l.length →
    ∃ x ∈ l, f x = some v
  | [], k, v, _, hle, hlt => by simp at hlt; omega
  | y :: l, k, v, h, hle, hlt => by
    rcases Nat.eq_or_lt_of_le hle with rfl | hlt'
    · exact ⟨y, List.mem_cons_self, h.1⟩
    · simp only [List.length_cons] at hlt
      obtain ⟨x, hx, hv⟩ := exists_mem h.2 (v := v) hlt' (by omega)
      exact ⟨x, List.mem_cons_of_mem _ hx, hv⟩

/-- The entries past a number are the later ones. -/
theorem filter_lt : ∀ {l : List α} {k : ℕ} (v : ℕ), Numbered f k l →
    l.filter (fun x => (f x).any (v < ·)) = l.drop (v + 1 - k)
  | [], k, v, _ => by simp
  | x :: l, k, v, h => by
    by_cases hv : v < k
    · rw [List.filter_cons_of_pos (by simp [h.1, hv]), filter_lt v h.2,
        show v + 1 - (k + 1) = 0 by omega, show v + 1 - k = 0 by omega]
      rfl
    · rw [List.filter_cons_of_neg (by simp [h.1, hv]), filter_lt v h.2,
        show v + 1 - k = (v + 1 - (k + 1)) + 1 by omega]
      rfl

/-- The entries below a number are the earlier ones. -/
theorem filter_gt : ∀ {l : List α} {k : ℕ} (v : ℕ), Numbered f k l →
    l.filter (fun x => (f x).any (· < v)) = l.take (v - k)
  | [], k, v, _ => by simp
  | x :: l, k, v, h => by
    by_cases hv : k < v
    · rw [List.filter_cons_of_pos (by simp [h.1, hv]), filter_gt v h.2,
        show v - k = (v - (k + 1)) + 1 by omega]
      rfl
    · rw [List.filter_cons_of_neg (by simp [h.1, hv]), filter_gt v h.2,
        show v - (k + 1) = 0 by omega, show v - k = 0 by omega]
      simp

theorem take {l : List α} {k : ℕ} (h : Numbered f k l) (n : ℕ) : Numbered f k (l.take n) := by
  rw [← List.take_append_drop n l] at h
  exact (append_iff.1 h).1

theorem drop {l : List α} {k n : ℕ} (h : Numbered f k l) (hn : n ≤ l.length) :
    Numbered f (k + n) (l.drop n) := by
  rw [← List.take_append_drop n l] at h
  simpa [Nat.min_eq_left hn] using (append_iff.1 h).2

/-- The number of an entry is its place. -/
theorem getElem? : ∀ {l : List α} {k j : ℕ} {x : α}, Numbered f k l → l[j]? = some x →
    f x = some (k + j)
  | y :: l, k, 0, x, h, hx => by
    obtain rfl : y = x := by simpa using hx
    exact h.1
  | y :: l, k, j + 1, x, h, hx => by
    rw [getElem? h.2 (j := j) (by simpa using hx), Nat.add_assoc, Nat.add_comm 1]

end Numbered
