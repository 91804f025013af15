import Mathlib.Data.List.Nodup
import Mathlib.Data.List.ReduceOption
import Mathlib.Tactic.Common

/-!
# Sets that change while they are iterated

A set keeps its entries in the order they were added, and a deleted one leaves its place empty. An
iterator is a place: it skips what is empty and meets what is added while it is under way. A walk
goes through several sets, one after another, and what it has left grows by what is added ahead of
it and shrinks by what is deleted ahead of it (`left_add`, `left_delete`).
-/

structure LiveSet (α : Type*) where
  entries : List (Option α)
  nodup : entries.reduceOption.Nodup
deriving DecidableEq

namespace LiveSet

variable {α : Type*}

def empty : LiveSet α := ⟨[], List.nodup_nil⟩

def toList (s : LiveSet α) : List α := s.entries.reduceOption

@[simp] theorem toList_empty : (empty : LiveSet α).toList = [] := rfl

/-- What an iterator meets from a place on, if nothing changes. -/
def rest (s : LiveSet α) (i : ℕ) : List α := (s.entries.drop i).reduceOption

@[simp] theorem rest_zero (s : LiveSet α) : s.rest 0 = s.toList := rfl

theorem rest_sublist (s : LiveSet α) (i : ℕ) : (s.rest i).Sublist s.toList :=
  (List.drop_sublist i s.entries).filterMap id

theorem nodup_rest (s : LiveSet α) (i : ℕ) : (s.rest i).Nodup := s.nodup.sublist (s.rest_sublist i)

/-- The first of the entries that is not empty, and the place after it. -/
def firstFrom : List (Option α) → ℕ → Option (α × ℕ)
  | [], _ => none
  | none :: entries, i => firstFrom entries (i + 1)
  | some a :: _, i => some (a, i + 1)

/-- What an iterator meets next, and its place after that. -/
def next (s : LiveSet α) (i : ℕ) : Option (α × ℕ) := firstFrom (s.entries.drop i) i

theorem firstFrom_eq_none {i : ℕ} : ∀ {entries : List (Option α)},
    firstFrom entries i = none → entries.reduceOption = []
  | [], _ => rfl
  | none :: _, h => by
    rw [List.reduceOption_cons_of_none]
    exact firstFrom_eq_none h

theorem firstFrom_eq_some {a : α} {i' : ℕ} : ∀ {l : List (Option α)} {i : ℕ},
    firstFrom l i = some (a, i') →
      l.reduceOption = a :: (l.drop (i' - i)).reduceOption ∧ i < i'
        ∧ i' ≤ i + l.length
  | none :: entries, i, h => by
    obtain ⟨hred, hlt, hle⟩ := firstFrom_eq_some (l := entries) h
    have hdrop : i' - i = i' - (i + 1) + 1 := by omega
    refine ⟨?_, by omega, by rw [List.length_cons]; omega⟩
    rw [List.reduceOption_cons_of_none, hred, hdrop, List.drop_succ_cons]
  | some b :: entries, i, h => by
    obtain ⟨rfl, rfl⟩ := Prod.mk.inj (Option.some.inj h)
    refine ⟨?_, by omega, by rw [List.length_cons]; omega⟩
    rw [List.reduceOption_cons_of_some, Nat.add_sub_cancel_left, List.drop_succ_cons,
      List.drop_zero]

theorem rest_of_next_eq_none {s : LiveSet α} {i : ℕ} (h : s.next i = none) : s.rest i = [] :=
  firstFrom_eq_none h

theorem rest_of_next_eq_some {s : LiveSet α} {i i' : ℕ} {a : α} (h : s.next i = some (a, i')) :
    s.rest i = a :: s.rest i' := by
  obtain ⟨hred, hlt, -⟩ := firstFrom_eq_some h
  rw [List.drop_drop, Nat.add_sub_cancel' (Nat.le_of_lt hlt)] at hred
  exact hred

theorem le_of_next_eq_some {s : LiveSet α} {i i' : ℕ} {a : α} (h : s.next i = some (a, i')) :
    i' ≤ s.entries.length := by
  obtain ⟨-, hlt, hle⟩ := firstFrom_eq_some h
  rw [List.length_drop] at hle
  omega

section Change

variable [DecidableEq α]

/-- A member keeps its place. -/
def add (s : LiveSet α) (a : α) : LiveSet α :=
  if h : a ∈ s.toList then s
  else
    { entries := s.entries ++ [some a]
      nodup := by
        rw [List.reduceOption_append]
        exact s.nodup.append (List.nodup_singleton a) (by simpa [toList] using h) }

/-- The entry of `a` gets empty. -/
def erased (a : α) (entries : List (Option α)) : List (Option α) :=
  entries.map fun entry => if entry = some a then none else entry

theorem reduceOption_erased (a : α) : ∀ entries : List (Option α),
    (erased a entries).reduceOption = entries.reduceOption.filter (· ≠ a)
  | [] => rfl
  | none :: entries => by
    have ih := reduceOption_erased a entries
    unfold erased at ih ⊢
    rw [List.map_cons, if_neg (by simp), List.reduceOption_cons_of_none,
      List.reduceOption_cons_of_none, ih]
  | some b :: entries => by
    have ih := reduceOption_erased a entries
    unfold erased at ih ⊢
    rw [List.map_cons, List.reduceOption_cons_of_some]
    by_cases hb : b = a
    · rw [if_pos (by rw [hb]), List.reduceOption_cons_of_none, List.filter_cons_of_neg (by simpa),
        ih]
    · rw [if_neg (by simpa using hb), List.reduceOption_cons_of_some,
        List.filter_cons_of_pos (by simpa), ih]

def delete (s : LiveSet α) (a : α) : LiveSet α where
  entries := erased a s.entries
  nodup := by
    rw [reduceOption_erased]
    exact s.nodup.filter _

theorem rest_delete (s : LiveSet α) (a : α) (i : ℕ) : (s.delete a).rest i = (s.rest i).erase a := by
  have hdrop : (erased a s.entries).drop i = erased a (s.entries.drop i) := List.map_drop.symm
  rw [rest, delete, hdrop, reduceOption_erased, (s.nodup_rest i).erase_eq_filter]
  exact List.filter_congr fun b _ => Bool.eq_iff_iff.2 (by simp)

theorem toList_delete (s : LiveSet α) (a : α) : (s.delete a).toList = s.toList.erase a :=
  s.rest_delete a 0

theorem rest_add {s : LiveSet α} {i : ℕ} (a : α) (hi : i ≤ s.entries.length) :
    (s.add a).rest i = if a ∈ s.toList then s.rest i else s.rest i ++ [a] := by
  unfold add
  split_ifs with h
  · rfl
  · rw [rest, List.drop_append_of_le_length hi, List.reduceOption_append]
    rfl

theorem toList_add (s : LiveSet α) (a : α) :
    (s.add a).toList = if a ∈ s.toList then s.toList else s.toList ++ [a] :=
  rest_add a (Nat.zero_le _)

theorem length_delete (s : LiveSet α) (a : α) :
    (s.delete a).entries.length = s.entries.length := by
  simp [delete, erased]

theorem le_length_add (s : LiveSet α) (a : α) : s.entries.length ≤ (s.add a).entries.length := by
  unfold add
  split_ifs <;> simp

end Change

/-! ## What an iterator has passed -/

/-- The members before a place. -/
def passed (s : LiveSet α) (i : ℕ) : List α := (s.entries.take i).reduceOption

@[simp] theorem passed_zero (s : LiveSet α) : s.passed 0 = [] := rfl

theorem passed_append_rest (s : LiveSet α) (i : ℕ) : s.passed i ++ s.rest i = s.toList := by
  rw [passed, rest, ← List.reduceOption_append, List.take_append_drop]
  rfl

theorem nodup_passed (s : LiveSet α) (i : ℕ) : (s.passed i).Nodup :=
  s.nodup.sublist ((List.take_sublist i s.entries).filterMap id)

theorem mem_toList {s : LiveSet α} {a : α} (i : ℕ) :
    a ∈ s.toList ↔ a ∈ s.passed i ∨ a ∈ s.rest i := by
  rw [← s.passed_append_rest i, List.mem_append]

theorem passed_delete [DecidableEq α] (s : LiveSet α) (a : α) (i : ℕ) :
    (s.delete a).passed i = (s.passed i).erase a := by
  have htake : (erased a s.entries).take i = erased a (s.entries.take i) := List.map_take.symm
  rw [passed, delete, htake, reduceOption_erased, (s.nodup_passed i).erase_eq_filter]
  exact List.filter_congr fun b _ => Bool.eq_iff_iff.2 (by simp)

theorem passed_add [DecidableEq α] {s : LiveSet α} {i : ℕ} (a : α) (hi : i ≤ s.entries.length) :
    (s.add a).passed i = s.passed i := by
  unfold add
  split_ifs
  · rfl
  · rw [passed, List.take_append_of_le_length hi]
    rfl

/-- The first of the entries that meets `p`, and the place after it. -/
def findFrom (p : α → Bool) : List (Option α) → ℕ → Option (α × ℕ)
  | [], _ => none
  | none :: entries, i => findFrom p entries (i + 1)
  | some a :: entries, i => if p a then some (a, i + 1) else findFrom p entries (i + 1)

/-- What an iterator that skips what does not meet `p` meets next, and its place after that. -/
def find (s : LiveSet α) (p : α → Bool) (i : ℕ) : Option (α × ℕ) :=
  findFrom p (s.entries.drop i) i

variable {p : α → Bool}

theorem findFrom_eq_none : ∀ {entries : List (Option α)} (i : ℕ),
    findFrom p entries i = none → ∀ a ∈ entries.reduceOption, p a = false
  | [], _, _, _, ha => by cases ha
  | none :: entries, i, h, a, ha => by
    rw [List.reduceOption_cons_of_none] at ha
    exact findFrom_eq_none (i + 1) h a ha
  | some b :: entries, i, h, a, ha => by
    simp only [findFrom] at h
    split_ifs at h with hb
    rw [List.reduceOption_cons_of_some] at ha
    rcases List.mem_cons.1 ha with rfl | ha
    · simpa using hb
    · exact findFrom_eq_none (i + 1) h a ha

theorem findFrom_eq_some {a : α} {j : ℕ} : ∀ {l : List (Option α)} {i : ℕ},
    findFrom p l i = some (a, j) → ∃ skipped, (l.take (j - i)).reduceOption = skipped ++ [a]
      ∧ (∀ b ∈ skipped, p b = false) ∧ p a = true ∧ i < j ∧ j ≤ i + l.length
  | none :: l, i, h => by
    obtain ⟨skipped, htake, hskip, ha, hlt, hle⟩ := findFrom_eq_some (l := l) h
    have hj : j - i = j - (i + 1) + 1 := by omega
    refine ⟨skipped, ?_, hskip, ha, by omega, by rw [List.length_cons]; omega⟩
    rw [hj, List.take_succ_cons, List.reduceOption_cons_of_none, htake]
  | some b :: l, i, h => by
    simp only [findFrom] at h
    split_ifs at h with hb
    · obtain ⟨rfl, rfl⟩ := Prod.mk.inj (Option.some.inj h)
      refine ⟨[], ?_, by simp, hb, by omega, by rw [List.length_cons]; omega⟩
      simp
    · obtain ⟨skipped, htake, hskip, ha, hlt, hle⟩ := findFrom_eq_some (l := l) h
      have hj : j - i = j - (i + 1) + 1 := by omega
      refine ⟨b :: skipped, ?_, ?_, ha, by omega, by rw [List.length_cons]; omega⟩
      · rw [hj, List.take_succ_cons, List.reduceOption_cons_of_some, htake, List.cons_append]
      · rintro c (_ | ⟨_, hc⟩)
        · simpa using hb
        · exact hskip c hc

theorem rest_of_find_eq_none {s : LiveSet α} {i : ℕ} (h : s.find p i = none) :
    ∀ a ∈ s.rest i, p a = false :=
  findFrom_eq_none _ h

/-- What is met is passed then, with what was skipped. -/
theorem passed_of_find_eq_some {s : LiveSet α} {i j : ℕ} {a : α} (hi : i ≤ s.entries.length)
    (h : s.find p i = some (a, j)) : ∃ skipped, s.passed j = s.passed i ++ skipped ++ [a]
      ∧ (∀ b ∈ skipped, p b = false) ∧ p a = true ∧ j ≤ s.entries.length := by
  obtain ⟨skipped, htake, hskip, ha, hlt, hle⟩ := findFrom_eq_some h
  rw [List.length_drop] at hle
  refine ⟨skipped, ?_, hskip, ha, by omega⟩
  rw [passed, show j = i + (j - i) by omega, List.take_add, List.reduceOption_append, htake,
    List.append_assoc]
  rfl

/-! ## Several sets, one after another -/

/-- What a walk meets from a place in one of the sets on, if nothing changes. -/
def left : List (LiveSet α) → ℕ → ℕ → List α
  | [], _, _ => []
  | s :: sets, 0, i => s.rest i ++ sets.flatMap toList
  | _ :: sets, k + 1, i => left sets k i

/-- What a walk meets next, and its place after that. -/
def seek : List (LiveSet α) → ℕ → ℕ → Option (α × ℕ × ℕ)
  | [], _, _ => none
  | s :: sets, 0, i =>
    match s.next i with
    | some (a, i') => some (a, 0, i')
    | none => (seek sets 0 0).map fun (a, k, i') => (a, k + 1, i')
  | _ :: sets, k + 1, i => (seek sets k i).map fun (a, k, i') => (a, k + 1, i')

/-- What a walk has yet to meet of the set at a place. -/
def ahead : List (LiveSet α) → ℕ → ℕ → ℕ → List α
  | [], _, _, _ => []
  | s :: _, 0, i, 0 => s.rest i
  | _ :: _, _ + 1, _, 0 => []
  | _ :: sets, 0, _, j + 1 => ahead sets 0 0 j
  | _ :: sets, k + 1, i, j + 1 => ahead sets k i j

/-- The place of a walk is a place of one of the sets. -/
def Within (sets : List (LiveSet α)) (k i : ℕ) : Prop :=
  ∃ s, sets[k]? = some s ∧ i ≤ s.entries.length

theorem left_zero_zero (sets : List (LiveSet α)) : left sets 0 0 = sets.flatMap toList := by
  cases sets <;> simp [left]

theorem left_of_seek_eq_none : ∀ {S : List (LiveSet α)} {k i : ℕ}, seek S k i = none →
    left S k i = []
  | [], _, _, _ => rfl
  | s :: sets, 0, i, h => by
    unfold seek at h
    split at h
    · cases h
    · next hnext =>
      have hleft := left_of_seek_eq_none (Option.map_eq_none_iff.1 h)
      rw [left_zero_zero] at hleft
      rw [left, rest_of_next_eq_none hnext, hleft, List.append_nil]
  | _ :: sets, k + 1, i, h => left_of_seek_eq_none (S := sets) (Option.map_eq_none_iff.1 h)

theorem left_of_seek_eq_some {a : α} {k' i' : ℕ} : ∀ {S : List (LiveSet α)} {k i : ℕ},
    seek S k i = some (a, k', i') → left S k i = a :: left S k' i' ∧ Within S k' i'
  | s :: sets, 0, i, h => by
    unfold seek at h
    split at h
    · next hnext =>
      cases h
      exact ⟨by rw [left, left, rest_of_next_eq_some hnext, List.cons_append],
        s, rfl, le_of_next_eq_some hnext⟩
    · next hnext =>
      obtain ⟨⟨a', k'', i''⟩, hseek, heq⟩ := Option.map_eq_some_iff.1 h
      cases heq
      obtain ⟨hleft, hin⟩ := left_of_seek_eq_some hseek
      rw [left_zero_zero] at hleft
      refine ⟨?_, hin⟩
      rw [left, left, rest_of_next_eq_none hnext, hleft, List.nil_append]
  | _ :: sets, k + 1, i, h => by
    obtain ⟨⟨a', k'', i''⟩, hseek, heq⟩ := Option.map_eq_some_iff.1 h
    cases heq
    exact left_of_seek_eq_some (S := sets) hseek

theorem within_modify {sets : List (LiveSet α)} {k i : ℕ} {f : LiveSet α → LiveSet α} (j : ℕ)
    (hf : ∀ s, s.entries.length ≤ (f s).entries.length) (h : Within sets k i) :
    Within (sets.modify j f) k i := by
  obtain ⟨s, hs, hi⟩ := h
  rw [Within, List.getElem?_modify, hs]
  split_ifs
  · exact ⟨f s, rfl, Nat.le_trans hi (hf s)⟩
  · exact ⟨s, rfl, hi⟩

theorem within_concat {sets : List (LiveSet α)} {k i : ℕ} (h : Within sets k i)
    (s : LiveSet α) : Within (sets ++ [s]) k i := by
  obtain ⟨s', hs, hi⟩ := h
  exact ⟨s', List.getElem?_append_left (List.getElem?_eq_some_iff.1 hs).1 ▸ hs, hi⟩

/-- An empty set at the end leaves a walk nothing. -/
theorem left_concat_empty : ∀ {S : List (LiveSet α)} {k i : ℕ}, Within S k i →
    left (S ++ [empty]) k i = left S k i
  | [], _, _, h => by
    obtain ⟨_, hs, -⟩ := h
    cases hs
  | s :: sets, 0, i, _ => by
    rw [List.cons_append, left, left, List.flatMap_append]
    simp
  | _ :: sets, k + 1, i, h => left_concat_empty (S := sets) h

section Change

variable [DecidableEq α]

theorem flatMap_add_perm (a : α) : ∀ {S : List (LiveSet α)} {j : ℕ} {s : LiveSet α},
    S[j]? = some s → ((S.modify j (add · a)).flatMap toList).Perm
      (S.flatMap toList ++ if a ∈ s.toList then [] else [a])
  | s :: sets, 0, _, h => by
    obtain rfl := Option.some.inj h
    rw [List.modify_zero_cons, List.flatMap_cons, List.flatMap_cons, toList_add]
    split_ifs
    · simp
    · rw [List.append_assoc, List.append_assoc]
      exact List.perm_append_comm.append_left _
  | s :: sets, j + 1, _, h => by
    rw [List.modify_succ_cons, List.flatMap_cons, List.flatMap_cons, List.append_assoc]
    exact (flatMap_add_perm (S := sets) a h).append_left _

/-- What is added ahead of a walk is left to it. -/
theorem left_add (a : α) : ∀ {S : List (LiveSet α)} {k i j : ℕ} {s : LiveSet α},
    Within S k i → S[j]? = some s → (left (S.modify j (add · a)) k i).Perm
      (left S k i ++ if k ≤ j ∧ a ∉ s.toList then [a] else [])
  | s :: sets, 0, i, 0, _, hin, h => by
    obtain rfl := Option.some.inj h
    obtain ⟨s', hs', hi⟩ := hin
    obtain rfl := Option.some.inj hs'
    rw [List.modify_zero_cons, left, left, rest_add a hi]
    by_cases ha : a ∈ s.toList
    · simp [ha]
    · rw [if_neg ha, if_pos ⟨Nat.le_refl 0, ha⟩, List.append_assoc, List.append_assoc]
      exact List.perm_append_comm.append_left _
  | s :: sets, 0, i, j + 1, s', hin, h => by
    have hperm := flatMap_add_perm (S := sets) a (j := j) h
    rw [List.modify_succ_cons, left, left, List.append_assoc]
    refine (hperm.append_left _).trans (List.Perm.of_eq ?_)
    by_cases ha : a ∈ s'.toList <;> simp [ha]
  | s :: sets, k + 1, i, 0, _, hin, h => by
    rw [List.modify_zero_cons, if_neg (by omega), List.append_nil]
    rfl
  | s :: sets, k + 1, i, j + 1, s', hin, h => by
    rw [List.modify_succ_cons, left, left]
    simpa using left_add (S := sets) a (k := k) (i := i) hin h

/-- What is deleted ahead of a walk is no longer left to it. -/
theorem left_delete (a : α) : ∀ {S : List (LiveSet α)} {k i j : ℕ}, (left S k i).Perm
    (left (S.modify j (delete · a)) k i ++ if a ∈ ahead S k i j then [a] else [])
  | [], _, _, _ => by simp [left, ahead]
  | s :: sets, 0, i, 0 => by
    rw [List.modify_zero_cons, left, left, ahead, rest_delete]
    split_ifs with ha
    · refine ((List.perm_cons_erase ha).append_right _).trans ?_
      exact (List.perm_append_singleton a _).symm
    · rw [List.erase_of_not_mem ha, List.append_nil]
  | s :: sets, 0, i, j + 1 => by
    rw [List.modify_succ_cons, left, left, ahead, List.append_assoc]
    refine List.Perm.append_left _ ?_
    have ih := left_delete a (S := sets) (k := 0) (i := 0) (j := j)
    rwa [left_zero_zero, left_zero_zero] at ih
  | s :: sets, k + 1, i, 0 => by
    rw [List.modify_zero_cons, ahead, if_neg (by simp), List.append_nil]
    rfl
  | s :: sets, k + 1, i, j + 1 => left_delete a (S := sets)

end Change

end LiveSet
