import Mathlib.Data.List.Infix
import Mathlib.Tactic.Common

/-!
# Topics

A topic is a list of words. A pattern's parts are words, one that stands for any word, and one that
stands for any number of words.
-/

namespace Topics

/-- A part of a pattern. -/
inductive Part (α : Type*)
  | word (w : α)
  | one
  | many
deriving DecidableEq, Repr

variable {α : Type*}

inductive Matches : List (Part α) → List α → Prop
  | nil : Matches [] []
  | word (w : α) {p : List (Part α)} {ws : List α} : Matches p ws → Matches (.word w :: p) (w :: ws)
  | one (w : α) {p : List (Part α)} {ws : List α} : Matches p ws → Matches (.one :: p) (w :: ws)
  | many (pre : List α) {p : List (Part α)} {ws : List α} :
      Matches p ws → Matches (.many :: p) (pre ++ ws)

/-- Where the part reads the word. -/
def Part.Reads : Part α → α → Prop
  | .word w, w' => w = w'
  | .one, _ => True
  | .many, _ => True

/-- Parts that each read their word match the words. -/
theorem matches_map {read : α → Part α} (h : ∀ w, (read w).Reads w) :
    ∀ ws : List α, Matches (ws.map read) ws
  | [] => .nil
  | w :: ws => by
    have ih := matches_map h ws
    have hw := h w
    rw [List.map_cons]
    generalize read w = part at hw
    cases part with
    | word w' =>
      obtain rfl : w' = w := hw
      exact .word w' ih
    | one => exact .one w ih
    | many => exact .many [w] ih

theorem matches_many (ws : List α) : Matches [.many] ws := by
  have h := Matches.many ws (.nil (α := α))
  rwa [List.append_nil] at h

variable [DecidableEq α]

def accepts : List (Part α) → List α → Bool
  | [], ws => ws.isEmpty
  | .word w :: p, ws => ws.head? = some w && accepts p ws.tail
  | .one :: p, ws => !ws.isEmpty && accepts p ws.tail
  | .many :: p, ws => ws.tails.any (accepts p)

theorem accepts_iff : ∀ {p : List (Part α)} {ws : List α}, accepts p ws = true ↔ Matches p ws
  | [], ws => by
    rw [accepts, List.isEmpty_iff]
    exact ⟨fun h => h ▸ .nil, fun h => by cases h; rfl⟩
  | .word w :: p, ws => by
    simp only [accepts, Bool.and_eq_true, decide_eq_true_eq, accepts_iff]
    constructor
    · rintro ⟨hw, h⟩
      obtain ⟨rest, rfl⟩ := List.head?_eq_some_iff.1 hw
      exact .word w h
    · intro h
      cases h with
      | word _ h => exact ⟨rfl, h⟩
  | .one :: p, ws => by
    simp only [accepts, Bool.and_eq_true, accepts_iff]
    constructor
    · rintro ⟨hne, h⟩
      rcases ws with _ | ⟨w, ws⟩
      · cases hne
      · exact .one w h
    · intro h
      cases h with
      | one w h => exact ⟨rfl, h⟩
  | .many :: p, ws => by
    simp only [accepts, List.any_eq_true, List.mem_tails, accepts_iff]
    constructor
    · rintro ⟨ws', ⟨pre, rfl⟩, h⟩
      exact .many pre h
    · intro h
      cases h with
      | many pre h => exact ⟨_, List.suffix_append pre _, h⟩

instance (p : List (Part α)) (ws : List α) : Decidable (Matches p ws) :=
  decidable_of_iff (accepts p ws = true) accepts_iff

end Topics
