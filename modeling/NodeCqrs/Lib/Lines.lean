import Mathlib.Algebra.GroupWithZero.Nat
import Mathlib.Algebra.Order.BigOperators.Group.List
import Mathlib.Algebra.Order.Group.Nat
import Mathlib.Data.List.Nodup
import Mathlib.Data.Nat.Notation
import Mathlib.Logic.Function.Basic
import Mathlib.Tactic.Common

/-!
# Lines one behind the other

Items stand in lines numbered from `0`, and who leaves the head of a line joins the end of the next
one. Read from the last line to the first, the items keep their order (`gather_update₂`).

A journal has entries on many subjects; those on one are in the order they were made.
-/

namespace Lines

variable {α β : Type*}

section Gather

variable (f : ℕ → List α → List β) (lines : ℕ → List α)

/-- What `f` makes of the first `n` lines, from the last to the first. -/
def gather : ℕ → List β
  | 0 => []
  | n + 1 => f n (lines n) ++ gather n

variable {f lines}

theorem mem_gather {x : β} : ∀ {n : ℕ}, x ∈ gather f lines n ↔ ∃ k < n, x ∈ f k (lines k)
  | 0 => by simp [gather]
  | n + 1 => by
    simp only [gather, List.mem_append, mem_gather]
    constructor
    · rintro (h | ⟨k, hk, h⟩)
      · exact ⟨n, Nat.lt_succ_self n, h⟩
      · exact ⟨k, Nat.lt_succ_of_lt hk, h⟩
    · rintro ⟨k, hk, h⟩
      rcases Nat.eq_or_lt_of_le (Nat.le_of_lt_succ hk) with rfl | hk
      · exact .inl h
      · exact .inr ⟨k, hk, h⟩

variable (f lines)

theorem gather_update_of_le {k : ℕ} (l : List α) : ∀ {n : ℕ}, n ≤ k →
    gather f (Function.update lines k l) n = gather f lines n
  | 0, _ => rfl
  | n + 1, hk => by
    rw [gather, gather, Function.update_of_ne (by omega), gather_update_of_le l (by omega)]

theorem gather_update {k : ℕ} : ∀ {n : ℕ}, k < n → ∃ pre post, ∀ l,
    gather f (Function.update lines k l) n = pre ++ f k l ++ post
  | n + 1, hk => by
    rcases Nat.eq_or_lt_of_le (Nat.le_of_lt_succ hk) with rfl | hk
    · refine ⟨[], gather f lines k, fun l => ?_⟩
      rw [gather, Function.update_self, gather_update_of_le f lines l (Nat.le_refl k), List.nil_append]
    · obtain ⟨pre, post, h⟩ := gather_update hk
      refine ⟨f n (lines n) ++ pre, post, fun l => ?_⟩
      rw [gather, h, Function.update_of_ne (Nat.ne_of_gt hk)]
      simp

/-- Two lines change, one behind the other. -/
theorem gather_update₂ {k : ℕ} : ∀ {n : ℕ}, k + 1 < n → ∃ pre post, ∀ l l',
    gather f (Function.update (Function.update lines k l) (k + 1) l') n
      = pre ++ (f (k + 1) l' ++ f k l) ++ post
  | n + 1, hk => by
    rcases Nat.eq_or_lt_of_le (Nat.le_of_lt_succ hk) with rfl | hk
    · refine ⟨[], gather f lines k, fun l l' => ?_⟩
      rw [gather, Function.update_self, gather_update_of_le f _ l' (Nat.le_refl _), gather,
        Function.update_self, gather_update_of_le f lines l (Nat.le_refl k)]
      simp
    · obtain ⟨pre, post, h⟩ := gather_update₂ hk
      refine ⟨f n (lines n) ++ pre, post, fun l l' => ?_⟩
      rw [gather, h, Function.update_of_ne (by omega), Function.update_of_ne (by omega)]
      simp

end Gather

/-- The names the items in the first `n` lines have. -/
def names (name : α → β) (lines : ℕ → List α) : ℕ → List β :=
  gather (fun _ l => l.map name) lines

variable {name : α → β} {lines : ℕ → List α}

theorem mem_names {n k : ℕ} {a : α} (hk : k < n) (ha : a ∈ lines k) :
    name a ∈ names name lines n :=
  mem_gather.2 ⟨k, hk, List.mem_map_of_mem ha⟩

variable (name lines)

/-- One joins the first line. -/
theorem names_join (a : α) : ∀ n : ℕ,
    names name (Function.update lines 0 (lines 0 ++ [a])) (n + 1) = names name lines (n + 1) ++ [name a]
  | 0 => by simp [names, gather]
  | n + 1 => by
    have ih := names_join a n
    simp only [names] at ih ⊢
    rw [gather, ih, Function.update_of_ne (Nat.succ_ne_zero n), ← List.append_assoc]
    rfl

variable {name lines}

/-- The head of the last line leaves. -/
theorem names_leave {n : ℕ} {a : α} {rest : List α} (h : lines n = a :: rest) :
    names name lines (n + 1) = name a :: names name (Function.update lines n rest) (n + 1) := by
  simp only [names, gather, h, Function.update_self, gather_update_of_le _ lines rest (Nat.le_refl n)]
  rfl

/-- The head of a line goes to the next one, and keeps its name. -/
theorem names_pass {n k : ℕ} {a b : α} {rest : List α} (hk : k + 1 < n) (h : lines k = a :: rest)
    (hb : name b = name a) :
    names name (Function.update (Function.update lines k rest) (k + 1) (lines (k + 1) ++ [b])) n
      = names name lines n := by
  obtain ⟨pre, post, hu⟩ := gather_update₂ (fun _ l => l.map name) lines hk
  have hlines : Function.update (Function.update lines k (lines k)) (k + 1) (lines (k + 1)) = lines :=
    by simp
  have hold := hu (lines k) (lines (k + 1))
  rw [hlines] at hold
  rw [names, hu, names, hold, h]
  simp [hb]

/-- Those in one line change, and keep their names. -/
theorem names_map {n k : ℕ} {f : α → α} (hf : ∀ a, name (f a) = name a) :
    names name (Function.update lines k ((lines k).map f)) n = names name lines n := by
  induction n with
  | zero => rfl
  | succ n ih =>
    simp only [names, gather] at ih ⊢
    rw [ih]
    rcases eq_or_ne n k with rfl | hn
    · simp [hf, Function.comp_def]
    · rw [Function.update_of_ne hn]

/-- The last of the lines that are not empty. -/
theorem exists_last : ∀ {n : ℕ}, names name lines n ≠ [] →
    ∃ k < n, lines k ≠ [] ∧ ∀ k', k < k' → k' < n → lines k' = []
  | 0, h => absurd rfl h
  | n + 1, h => by
    rcases hl : lines n with _ | ⟨a, l⟩
    · have hn : names name lines n ≠ [] := by
        simpa [names, gather, hl] using h
      obtain ⟨k, hk, hne, hlast⟩ := exists_last hn
      refine ⟨k, Nat.lt_succ_of_lt hk, hne, fun k' hkk hk' => ?_⟩
      rcases Nat.eq_or_lt_of_le (Nat.le_of_lt_succ hk') with rfl | hlt
      · exact hl
      · exact hlast k' hkk hlt
    · exact ⟨n, Nat.lt_succ_self n, by simp [hl], fun k' hkk hk' => by omega⟩

theorem nodup_line : ∀ {n k : ℕ}, (names name lines n).Nodup → k < n → ((lines k).map name).Nodup
  | n + 1, k, hnd, hk => by
    obtain ⟨hl, hg, -⟩ := List.nodup_append.1 (show (_ ++ names name lines n).Nodup from hnd)
    rcases Nat.eq_or_lt_of_le (Nat.le_of_lt_succ hk) with rfl | hkn
    · exact hl
    · exact nodup_line hg hkn

/-- Where no two have the same name, who has it is found in one place. -/
theorem eq_of_name : ∀ {n k k' : ℕ} {a a' : α}, (names name lines n).Nodup → k < n → k' < n →
    a ∈ lines k → a' ∈ lines k' → name a = name a' → k = k' ∧ a = a'
  | n + 1, k, k', a, a', hnd, hk, hk', ha, ha', h => by
    obtain ⟨hl, hg, hdis⟩ := List.nodup_append.1 (show (_ ++ names name lines n).Nodup from hnd)
    rcases Nat.eq_or_lt_of_le (Nat.le_of_lt_succ hk) with rfl | hkn <;>
      rcases Nat.eq_or_lt_of_le (Nat.le_of_lt_succ hk') with rfl | hkn'
    · exact ⟨rfl, List.inj_on_of_nodup_map hl ha ha' h⟩
    · exact absurd h (hdis _ (List.mem_map_of_mem ha) _ (mem_names hkn' ha'))
    · exact absurd h.symm (hdis _ (List.mem_map_of_mem ha') _ (mem_names hkn ha))
    · exact eq_of_name hg hkn hkn' ha ha' h

section Weight

variable (weight : ℕ → α → ℕ)

/-- The items in the first `n` lines, each with its weight in the line it stands in. -/
def weigh (lines : ℕ → List α) (n : ℕ) : ℕ := (gather (fun k l => l.map (weight k)) lines n).sum

variable {weight} {n k : ℕ} {a b : α} {rest : List α}

theorem weigh_leave (h : lines n = a :: rest) :
    weigh weight lines (n + 1) = weight n a + weigh weight (Function.update lines n rest) (n + 1) := by
  simp only [weigh, gather, h, Function.update_self,
    gather_update_of_le _ lines rest (Nat.le_refl n)]
  simp

theorem weigh_pass (hk : k + 1 < n) (h : lines k = a :: rest) (hw : weight (k + 1) b < weight k a) :
    weigh weight (Function.update (Function.update lines k rest) (k + 1) (lines (k + 1) ++ [b])) n
      < weigh weight lines n := by
  obtain ⟨pre, post, hu⟩ := gather_update₂ (fun k l => l.map (weight k)) lines hk
  have hlines : Function.update (Function.update lines k (lines k)) (k + 1) (lines (k + 1)) = lines :=
    by simp
  have hold := hu (lines k) (lines (k + 1))
  rw [hlines] at hold
  rw [weigh, hu, weigh, hold, h]
  simp
  omega

theorem weigh_map {f : α → α} (hk : k < n) (hle : ∀ a ∈ lines k, weight k (f a) ≤ weight k a)
    (hlt : ∃ a ∈ lines k, weight k (f a) < weight k a) :
    weigh weight (Function.update lines k ((lines k).map f)) n < weigh weight lines n := by
  obtain ⟨pre, post, hu⟩ := gather_update (fun k l => l.map (weight k)) lines hk
  have hold := hu (lines k)
  rw [Function.update_eq_self] at hold
  have hsum : (((lines k).map f).map (weight k)).sum < ((lines k).map (weight k)).sum := by
    rw [List.map_map]
    exact List.sum_lt_sum _ _ hle hlt
  rw [weigh, hu, weigh, hold]
  simp only [List.sum_append]
  omega

end Weight

end Lines

namespace Journal

variable {ι α : Type*} [DecidableEq ι]

/-- The entries on `i`. -/
def on (i : ι) (journal : List (ι × α)) : List α :=
  journal.filterMap fun entry => if entry.1 = i then some entry.2 else none

@[simp] theorem on_nil (i : ι) : on i ([] : List (ι × α)) = [] := rfl

@[simp] theorem on_append (i : ι) (journal journal' : List (ι × α)) :
    on i (journal ++ journal') = on i journal ++ on i journal' :=
  List.filterMap_append

@[simp] theorem on_self (i : ι) (a : α) : on i [(i, a)] = [a] := by simp [on]

theorem on_of_ne {i j : ι} (h : j ≠ i) (a : α) : on i [(j, a)] = [] := by simp [on, h]

end Journal
