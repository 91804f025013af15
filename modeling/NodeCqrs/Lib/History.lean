import Mathlib.Data.List.Basic
import Mathlib.Tactic.Common

/-!
# Histories

A history is a list that grows at its end. An entry is explained by what is before it, and what has
held since an entry is kept while the entries after it keep it.
-/

namespace History

variable {E : Type*}

/-- Each entry is `ok` after those before it. -/
def Explained (ok : List E → E → Prop) (h : List E) : Prop :=
  ∀ pre e post, h = pre ++ e :: post → ok pre e

/-- The entry has only `post` after it, which has none that `ends` it, and `hold` has held since. -/
structure Since (ends : E → Prop) (hold : List E → Prop) (h : List E) (e : E) (post : List E) :
    Prop where
  eq : ∃ pre, h = pre ++ e :: post ∧ ∀ l, l <+: post → hold (pre ++ e :: l)
  ends : ∀ e' ∈ post, ¬ends e'

variable {ok : List E → E → Prop} {ends : E → Prop} {hold : List E → Prop} {h post : List E}
  {e e' : E}

theorem mem_of_mem_concat (hm : e ∈ h ++ [e']) (hne : e ≠ e') : e ∈ h :=
  (List.mem_append.1 hm).resolve_right fun hl => hne (List.mem_singleton.1 hl)

theorem explained_nil : Explained ok [] := fun pre e post he => by
  cases pre <;> cases he

theorem explained_concat : Explained ok (h ++ [e]) ↔ Explained ok h ∧ ok h e := by
  constructor
  · intro hh
    refine ⟨fun pre e' post he => hh pre e' (post ++ [e]) ?_, hh h e [] rfl⟩
    rw [he, List.append_assoc, List.cons_append]
  · rintro ⟨hh, he⟩ pre e' post heq
    rcases List.eq_nil_or_concat' post with rfl | ⟨post', e'', rfl⟩
    · obtain ⟨rfl, hlast⟩ := List.append_inj' heq rfl
      exact List.head_eq_of_cons_eq hlast ▸ he
    · rw [← List.cons_append, ← List.append_assoc] at heq
      obtain ⟨rfl, -⟩ := List.append_inj' heq rfl
      exact hh pre e' post' rfl

theorem Since.mem (hs : Since ends hold h e post) : e ∈ h := by
  obtain ⟨pre, rfl, -⟩ := hs.eq
  exact List.mem_append_right _ (List.mem_cons_self ..)

theorem Since.hold_self (hs : Since ends hold h e post) : hold h := by
  obtain ⟨pre, rfl, hhold⟩ := hs.eq
  exact hhold post List.prefix_rfl

/-- It begins with its entry. -/
theorem Since.new (hh : hold (h ++ [e])) : Since ends hold (h ++ [e]) e [] where
  eq := ⟨h, rfl, fun l hl => List.prefix_nil.1 hl ▸ hh⟩
  ends := by simp

theorem Since.concat (hs : Since ends hold h e post) (he : ¬ends e') (hh : hold (h ++ [e'])) :
    Since ends hold (h ++ [e']) e (post ++ [e']) where
  eq := by
    obtain ⟨pre, rfl, hhold⟩ := hs.eq
    rw [List.append_assoc, List.cons_append] at hh
    refine ⟨pre, List.append_assoc .., fun l hl => ?_⟩
    rcases List.prefix_concat_iff.1 hl with rfl | hl
    · exact hh
    · exact hhold l hl
  ends e'' he'' := by
    rcases List.mem_append.1 he'' with hpost | hlast
    · exact hs.ends e'' hpost
    · exact List.mem_singleton.1 hlast ▸ he

end History
