import Mathlib.Data.Nat.Notation
import Mathlib.Data.List.Basic
import Mathlib.Tactic.Common

/-!
# Turns

Arrivals are numbered as they come. They wait in line, one at a time has its turn, and who has it is
served, any number of times. If the line and the turns stay in the order of the numbers (`Turns`),
so do the services.
-/

/-- `turn` says whose turn it is, and `next` is the next arrival's number. -/
structure Turns (waiting : List ℕ) (turn : ℕ → Prop) (served : List ℕ) (next : ℕ) : Prop where
  waiting_sorted : waiting.Pairwise (· < ·)
  waiting_lt : ∀ n ∈ waiting, n < next
  turn_lt : ∀ n, turn n → n < next
  turn_unique : ∀ n n', turn n → turn n' → n = n'
  turn_waiting : ∀ n, turn n → ∀ n' ∈ waiting, n < n'
  served_sorted : served.Pairwise (· ≤ ·)
  served_lt : ∀ n ∈ served, n < next
  served_turn : ∀ n ∈ served, ∀ n', turn n' → n ≤ n'
  served_waiting : ∀ n ∈ served, ∀ n' ∈ waiting, n < n'

namespace Turns

variable {waiting waiting' served : List ℕ} {turn turn' : ℕ → Prop} {next next' : ℕ}

theorem nil (next : ℕ) : Turns [] (fun _ => False) [] next := by
  constructor <;> simp

/-- Some of those waiting may leave the line, and who has the turn may end it. -/
theorem mono (h : Turns waiting turn served next) (hw : waiting'.Sublist waiting)
    (ht : ∀ n, turn' n → turn n) (hn : next ≤ next') : Turns waiting' turn' served next' where
  waiting_sorted := h.waiting_sorted.sublist hw
  waiting_lt n hmem := Nat.lt_of_lt_of_le (h.waiting_lt n (hw.subset hmem)) hn
  turn_lt n hturn := Nat.lt_of_lt_of_le (h.turn_lt n (ht n hturn)) hn
  turn_unique n n' hturn hturn' := h.turn_unique n n' (ht n hturn) (ht n' hturn')
  turn_waiting n hturn n' hmem := h.turn_waiting n (ht n hturn) n' (hw.subset hmem)
  served_sorted := h.served_sorted
  served_lt n hmem := Nat.lt_of_lt_of_le (h.served_lt n hmem) hn
  served_turn n hmem n' hturn := h.served_turn n hmem n' (ht n' hturn)
  served_waiting n hmem n' hmem' := h.served_waiting n hmem n' (hw.subset hmem')

/-- An arrival waits behind the others. -/
theorem join (h : Turns waiting turn served next) :
    Turns (waiting ++ [next]) turn served (next + 1) where
  waiting_sorted := by
    refine List.pairwise_append.2 ⟨h.waiting_sorted, List.pairwise_singleton _ _, ?_⟩
    intro n hn n' hn'
    obtain rfl := List.mem_singleton.1 hn'
    exact h.waiting_lt n hn
  waiting_lt n hmem := by
    rcases List.mem_append.1 hmem with hn | hn
    · exact Nat.lt_succ_of_lt (h.waiting_lt n hn)
    · exact List.mem_singleton.1 hn ▸ Nat.lt_succ_self next
  turn_lt n hturn := Nat.lt_succ_of_lt (h.turn_lt n hturn)
  turn_unique := h.turn_unique
  turn_waiting n hturn n' hmem := by
    rcases List.mem_append.1 hmem with hn | hn
    · exact h.turn_waiting n hturn n' hn
    · exact List.mem_singleton.1 hn ▸ h.turn_lt n hturn
  served_sorted := h.served_sorted
  served_lt n hmem := Nat.lt_succ_of_lt (h.served_lt n hmem)
  served_turn := h.served_turn
  served_waiting n hmem n' hmem' := by
    rcases List.mem_append.1 hmem' with hn | hn
    · exact h.served_waiting n hmem n' hn
    · exact List.mem_singleton.1 hn ▸ h.served_lt n hmem

/-- The first in line has the turn next. -/
theorem take {n : ℕ} (h : Turns (n :: waiting) turn served next) (ht : ∀ n', turn' n' → n' = n) :
    Turns waiting turn' served next where
  waiting_sorted := (List.pairwise_cons.1 h.waiting_sorted).2
  waiting_lt n' hmem := h.waiting_lt n' (List.mem_cons_of_mem _ hmem)
  turn_lt n' hturn := ht n' hturn ▸ h.waiting_lt n List.mem_cons_self
  turn_unique n' n'' hturn hturn' := (ht n' hturn).trans (ht n'' hturn').symm
  turn_waiting n' hturn n'' hmem := ht n' hturn ▸ (List.pairwise_cons.1 h.waiting_sorted).1 n'' hmem
  served_sorted := h.served_sorted
  served_lt := h.served_lt
  served_turn n' hmem n'' hturn :=
    ht n'' hturn ▸ Nat.le_of_lt (h.served_waiting n' hmem n List.mem_cons_self)
  served_waiting n' hmem n'' hmem' := h.served_waiting n' hmem n'' (List.mem_cons_of_mem _ hmem')

/-- An arrival that finds no line has its turn at once. -/
theorem come (h : Turns [] turn served next) (ht : ∀ n, turn' n → n = next) :
    Turns [] turn' served (next + 1) :=
  take h.join ht

/-- Who has the turn is served. -/
theorem serve {n : ℕ} (h : Turns waiting turn served next) (hn : turn n) :
    Turns waiting turn (served ++ [n]) next where
  waiting_sorted := h.waiting_sorted
  waiting_lt := h.waiting_lt
  turn_lt := h.turn_lt
  turn_unique := h.turn_unique
  turn_waiting := h.turn_waiting
  served_sorted := by
    refine List.pairwise_append.2 ⟨h.served_sorted, List.pairwise_singleton _ _, ?_⟩
    intro n' hn' n'' hn''
    obtain rfl := List.mem_singleton.1 hn''
    exact h.served_turn n' hn' n'' hn
  served_lt n' hmem := by
    rcases List.mem_append.1 hmem with hn' | hn'
    · exact h.served_lt n' hn'
    · exact List.mem_singleton.1 hn' ▸ h.turn_lt n hn
  served_turn n' hmem n'' hturn := by
    rcases List.mem_append.1 hmem with hn' | hn'
    · exact h.served_turn n' hn' n'' hturn
    · exact List.mem_singleton.1 hn' ▸ Nat.le_of_eq (h.turn_unique n n'' hn hturn)
  served_waiting n' hmem n'' hmem' := by
    rcases List.mem_append.1 hmem with hn' | hn'
    · exact h.served_waiting n' hn' n'' hmem'
    · exact List.mem_singleton.1 hn' ▸ h.turn_waiting n hn n'' hmem'

end Turns
