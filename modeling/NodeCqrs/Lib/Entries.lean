import Mathlib.Tactic.Common

/-!
# Lists of entries

A list of keys with their values, read by `List.lookup`: what it gives for a key after the values of
a key are changed, or the entries of a key are taken out.
-/

namespace Entries

variable {κ β : Type*} [BEq κ] [LawfulBEq κ]

theorem mem_keys {l : List (κ × β)} {k : κ} : k ∈ l.map Prod.fst ↔ ∃ b, l.lookup k = some b := by
  rw [← Option.isSome_iff_exists, List.lookup_isSome_iff, List.mem_map]
  simp only [beq_iff_eq]
  exact exists_congr fun _ => and_congr_right fun _ => eq_comm

theorem lookup_eq_none {l : List (κ × β)} {k : κ} (h : k ∉ l.map Prod.fst) :
    l.lookup k = none := by
  by_contra hne
  exact h (mem_keys.2 (Option.ne_none_iff_exists'.1 hne))

theorem mem_of_lookup {l : List (κ × β)} {k : κ} {b : β} (h : l.lookup k = some b) :
    (k, b) ∈ l := by
  obtain ⟨pre, post, rfl, -⟩ := List.lookup_eq_some_iff.1 h
  simp

variable [DecidableEq κ]

omit [BEq κ] [LawfulBEq κ] in
theorem keys_map (f : β → β) (t : κ) (l : List (κ × β)) :
    (l.map fun entry => if entry.1 = t then (entry.1, f entry.2) else entry).map Prod.fst
      = l.map Prod.fst := by
  rw [List.map_map]
  refine List.map_congr_left fun entry _ => ?_
  rw [Function.comp_apply]
  split_ifs <;> rfl

theorem lookup_cons_eq (k k' : κ) (b : β) (l : List (κ × β)) :
    ((k, b) :: l).lookup k' = if k' = k then some b else l.lookup k' := by
  rw [List.lookup_cons]
  split_ifs with h
  · rw [h, beq_self_eq_true]
  · rw [beq_false_of_ne h]

/-- The entry of a new key is added behind the others. -/
theorem lookup_concat {k : κ} {l : List (κ × β)} (h : l.lookup k = none) (b : β) (k' : κ) :
    (l ++ [(k, b)]).lookup k' = if k' = k then some b else l.lookup k' := by
  rw [List.lookup_append, lookup_cons_eq]
  split_ifs with hk
  · rw [hk, h, Option.none_or]
  · exact Option.or_none

/-- The value of a key is changed where it is. -/
theorem lookup_map (f : β → β) (t k : κ) : ∀ l : List (κ × β),
    (l.map fun entry => if entry.1 = t then (entry.1, f entry.2) else entry).lookup k
      = if k = t then (l.lookup k).map f else l.lookup k
  | [] => by simp
  | (t', b) :: l => by
    have hhead : (if t' = t then (t', f b) else (t', b)) = (t', if t' = t then f b else b) := by
      split_ifs <;> rfl
    rw [List.map_cons, hhead, lookup_cons_eq, lookup_cons_eq, lookup_map f t k l]
    by_cases hk : k = t'
    · subst hk
      simp only [if_true]
      split_ifs <;> rfl
    · rw [if_neg hk, if_neg hk]

theorem lookup_filter_ne (t k : κ) : ∀ l : List (κ × β),
    (l.filter (·.1 ≠ t)).lookup k = if k = t then none else l.lookup k
  | [] => by simp
  | (t', b) :: l => by
    have ih := lookup_filter_ne t k l
    by_cases ht : t' = t
    · rw [List.filter_cons_of_neg (by simp [ht]), ih, lookup_cons_eq, ht]
      split_ifs <;> rfl
    · rw [List.filter_cons_of_pos (by simp [ht]), lookup_cons_eq, lookup_cons_eq, ih]
      by_cases hk : k = t'
      · simp [hk, ht]
      · simp [hk]

end Entries
