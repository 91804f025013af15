import Mathlib.Data.List.Basic
import Mathlib.Tactic.Common

/-!
# Lists with entries left out

`Thinned p l l'` says that `l'` is `l` without some of the entries that `p` holds of.
-/

variable {α β : Type*}

inductive Thinned (p : α → Prop) : List α → List α → Prop
  | nil : Thinned p [] []
  | keep (x : α) {l l' : List α} : Thinned p l l' → Thinned p (x :: l) (x :: l')
  | drop {x : α} {l l' : List α} : p x → Thinned p l l' → Thinned p (x :: l) l'

namespace Thinned

variable {p : α → Prop} {l l' : List α}

theorem refl : ∀ l : List α, Thinned p l l
  | [] => .nil
  | x :: l => .keep x (refl l)

theorem append {m m' : List α} (h : Thinned p l l') (hm : Thinned p m m') :
    Thinned p (l ++ m) (l' ++ m') := by
  induction h with
  | nil => exact hm
  | keep x _ ih => exact .keep x ih
  | drop hx _ ih => exact .drop hx ih

theorem flatMap {f g : β → List α} : ∀ {k : List β}, (∀ b ∈ k, Thinned p (f b) (g b)) →
    Thinned p (k.flatMap f) (k.flatMap g)
  | [], _ => .nil
  | b :: k, h => by
    rw [List.flatMap_cons, List.flatMap_cons]
    exact (h b List.mem_cons_self).append (flatMap fun b' hb => h b' (List.mem_cons_of_mem b hb))

/-- Of both the same entries are taken. -/
theorem filter (q : α → Bool) (h : Thinned p l l') : Thinned p (l.filter q) (l'.filter q) := by
  induction h with
  | nil => exact .nil
  | keep x _ ih =>
    rcases hq : q x
    · rwa [List.filter_cons_of_neg (by simp [hq]), List.filter_cons_of_neg (by simp [hq])]
    · rw [List.filter_cons_of_pos hq, List.filter_cons_of_pos hq]
      exact .keep x ih
  | @drop x _ _ hx _ ih =>
    rcases hq : q x
    · rwa [List.filter_cons_of_neg (by simp [hq])]
    · rw [List.filter_cons_of_pos hq]
      exact .drop hx ih

theorem of_filter (q : α → Bool) : ∀ {l : List α}, (∀ x ∈ l, q x = false → p x) →
    Thinned p l (l.filter q)
  | [], _ => .nil
  | x :: l, h => by
    have ih : Thinned p l (l.filter q) :=
      of_filter q fun y hy => h y (List.mem_cons_of_mem x hy)
    rcases hq : q x
    · rw [List.filter_cons_of_neg (by simp [hq])]
      exact .drop (h x List.mem_cons_self hq) ih
    · rw [List.filter_cons_of_pos hq]
      exact .keep x ih

/-- The last entry that is kept stands in the list, and those before it are thinned out. -/
theorem of_concat {x : α} : ∀ {l l' : List α}, Thinned p l (l' ++ [x]) →
    ∃ l₁ l₂, l = l₁ ++ x :: l₂ ∧ Thinned p l₁ l'
  | _, [], .keep _ (l := l) _ => ⟨[], l, rfl, .nil⟩
  | _, y :: _, .keep _ h => by
    obtain ⟨l₁, l₂, rfl, h'⟩ := of_concat h
    exact ⟨y :: l₁, l₂, rfl, .keep y h'⟩
  | _, _, .drop (x := z) hz h => by
    obtain ⟨l₁, l₂, rfl, h'⟩ := of_concat h
    exact ⟨z :: l₁, l₂, rfl, .drop hz h'⟩

end Thinned
