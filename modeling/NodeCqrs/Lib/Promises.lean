import Mathlib.Data.List.Basic
import Mathlib.Logic.Function.Basic
import Mathlib.Tactic.Common

/-!
# Promises

Promises by number. One is settled from outside, or is made of others, by `all`, `allSettled`,
`catch` or `finally`, and settles some time after these say what it becomes (`outcome`). To make one
is to attach handlers to those it is made of. What a promise has become it stays (`Grows`), so what
its parts were when it settled can be read off them at any later time (`WellFormed`).
-/

/-- What a promise has become. -/
inductive PromiseStatus
  | pending
  | fulfilled
  | rejected
deriving DecidableEq, Repr

/-- How a promise came about: settled from outside, `Promise.all`, `Promise.allSettled`,
`promise.catch(handler)` with whether there is a handler, or `promise.finally(…)`. -/
inductive PromiseOrigin
  | outer
  | all (promises : List ℕ)
  | allSettled (promises : List ℕ)
  | onRejected (promise : ℕ) (handler : Bool)
  | onFinally (promise : ℕ)
deriving DecidableEq, Repr

/-- The promises it is made of. -/
def PromiseOrigin.sources : PromiseOrigin → List ℕ
  | outer => []
  | all promises => promises
  | allSettled promises => promises
  | onRejected promise _ => [promise]
  | onFinally promise => [promise]

/-- The promises made so far. `handled` says that a handler is attached. -/
structure Promises where
  count : ℕ := 0
  origin : ℕ → PromiseOrigin := fun _ => .outer
  status : ℕ → PromiseStatus := fun _ => .pending
  handled : ℕ → Bool := fun _ => false

namespace Promises

/-- A promise is made; its number is the count. -/
def create (ps : Promises) (origin : PromiseOrigin) : Promises where
  count := ps.count + 1
  origin := Function.update ps.origin ps.count origin
  status := ps.status
  handled := fun i => ps.handled i || i ∈ origin.sources

/-- `Promise.reject(…)` -/
def reject (ps : Promises) : Promises :=
  { ps.create .outer with status := Function.update ps.status ps.count .rejected }

/-- What a promise becomes, where a handler it calls throws or not. -/
def outcome (ps : Promises) (threw : Bool) : PromiseOrigin → PromiseStatus
  | .outer => .pending
  | .all promises =>
    if promises.any (ps.status · = .rejected) then .rejected
    else if promises.all (ps.status · = .fulfilled) then .fulfilled
    else .pending
  | .allSettled promises =>
    if promises.all (ps.status · ≠ .pending) then .fulfilled else .pending
  | .onRejected promise handler =>
    if handler && ps.status promise = .rejected then if threw then .rejected else .fulfilled
    else ps.status promise
  | .onFinally promise => ps.status promise

/-- A promise is settled from outside. -/
def settle (ps : Promises) (i : ℕ) (status : PromiseStatus) : Option Promises :=
  if i < ps.count ∧ ps.origin i = .outer ∧ ps.status i = .pending ∧ status ≠ .pending then
    some { ps with status := Function.update ps.status i status }
  else none

/-- A promise becomes what those it is made of say. -/
def react (ps : Promises) (i : ℕ) (threw : Bool) : Option Promises :=
  if i < ps.count ∧ ps.status i = .pending ∧ ps.outcome threw (ps.origin i) ≠ .pending then
    some { ps with status := Function.update ps.status i (ps.outcome threw (ps.origin i)) }
  else none

/-- Some steps later: what there was has its origin, and what was settled is settled so. -/
structure Grows (ps ps' : Promises) : Prop where
  count : ps.count ≤ ps'.count
  origin : ∀ i < ps.count, ps'.origin i = ps.origin i
  status : ∀ i, ps.status i ≠ .pending → ps'.status i = ps.status i

variable {ps ps' ps'' : Promises} {i j : ℕ} {origin : PromiseOrigin}

theorem settle_eq {status : PromiseStatus} (h : ps.settle i status = some ps') :
    (i < ps.count ∧ ps.origin i = .outer ∧ ps.status i = .pending ∧ status ≠ .pending)
      ∧ ps' = { ps with status := Function.update ps.status i status } := by
  unfold settle at h
  split_ifs at h with hc
  exact ⟨hc, (Option.some.inj h).symm⟩

theorem react_eq {threw : Bool} (h : ps.react i threw = some ps') :
    (i < ps.count ∧ ps.status i = .pending ∧ ps.outcome threw (ps.origin i) ≠ .pending)
      ∧ ps' = { ps with
        status := Function.update ps.status i (ps.outcome threw (ps.origin i)) } := by
  unfold react at h
  split_ifs at h with hc
  exact ⟨hc, (Option.some.inj h).symm⟩

@[simp] theorem create_count (ps : Promises) (origin : PromiseOrigin) :
    (ps.create origin).count = ps.count + 1 := rfl

@[simp] theorem create_status (ps : Promises) (origin : PromiseOrigin) :
    (ps.create origin).status = ps.status := rfl

@[simp] theorem create_origin_self (ps : Promises) (origin : PromiseOrigin) :
    (ps.create origin).origin ps.count = origin := Function.update_self ..

theorem create_origin (hi : i < ps.count) : (ps.create origin).origin i = ps.origin i :=
  Function.update_of_ne (Nat.ne_of_lt hi) ..

section Outcome

variable {promises : List ℕ} {threw : Bool}

theorem outcome_all_rejected :
    ps.outcome threw (.all promises) = .rejected ↔ ∃ j ∈ promises, ps.status j = .rejected := by
  simp only [outcome]
  split_ifs with h1 h2
  · simpa using h1
  · simpa using h1
  · simpa using h1

theorem outcome_all_fulfilled :
    ps.outcome threw (.all promises) = .fulfilled ↔ ∀ j ∈ promises, ps.status j = .fulfilled := by
  simp only [outcome]
  split_ifs with h1 h2
  · obtain ⟨j, hj, hr⟩ := List.any_eq_true.1 h1
    refine iff_of_false (by simp) fun h => ?_
    rw [decide_eq_true_eq, h j hj] at hr
    cases hr
  · simpa using h2
  · simpa using h2

theorem outcome_allSettled :
    ps.outcome threw (.allSettled promises) ≠ .pending
      ↔ ∀ j ∈ promises, ps.status j ≠ .pending := by
  simp only [outcome]
  split_ifs with h
  · simpa using h
  · simpa using h

theorem outcome_allSettled_ne_rejected :
    ps.outcome threw (.allSettled promises) ≠ .rejected := by
  simp only [outcome]
  split_ifs <;> simp

theorem outcome_onRejected {handler : Bool}
    (h : ps.outcome threw (.onRejected j handler) ≠ .pending) : ps.status j ≠ .pending := by
  intro hj
  simp [outcome, hj] at h

/-- Nothing comes of no rejection but none. -/
theorem outcome_ne_rejected (h : ∀ j ∈ origin.sources, ps.status j ≠ .rejected) :
    ps.outcome threw origin ≠ .rejected := by
  cases origin with
  | outer => simp [outcome]
  | all promises =>
    rw [ne_eq, outcome_all_rejected]
    rintro ⟨j, hj, hr⟩
    exact h j hj hr
  | allSettled promises => exact outcome_allSettled_ne_rejected
  | onRejected promise handler =>
    have hne : ps.status promise ≠ .rejected := h promise (by simp [PromiseOrigin.sources])
    simp [outcome, hne]
  | onFinally promise => exact h promise (by simp [PromiseOrigin.sources])

end Outcome

namespace Grows

theorem refl (ps : Promises) : Grows ps ps := ⟨Nat.le_refl _, fun _ _ => rfl, fun _ _ => rfl⟩

theorem trans (h : Grows ps ps') (h' : Grows ps' ps'') : Grows ps ps'' where
  count := Nat.le_trans h.count h'.count
  origin i hi := (h'.origin i (Nat.lt_of_lt_of_le hi h.count)).trans (h.origin i hi)
  status i hi := by
    have hs := h.status i hi
    exact (h'.status i (hs ▸ hi)).trans hs

theorem settled (h : Grows ps ps') (hi : ps.status i ≠ .pending) : ps'.status i ≠ .pending := by
  rw [h.status i hi]
  exact hi

theorem create (ps : Promises) (origin : PromiseOrigin) : Grows ps (ps.create origin) where
  count := Nat.le_succ _
  origin _ hi := create_origin hi
  status _ _ := rfl

/-- A pending promise settles. -/
theorem of_update (status : PromiseStatus) (hi : ps.status i = .pending) :
    Grows ps { ps with status := Function.update ps.status i status } where
  count := Nat.le_refl _
  origin _ _ := rfl
  status j hj := Function.update_of_ne (by rintro rfl; exact hj hi) ..

theorem settle {status : PromiseStatus} (h : ps.settle i status = some ps') : Grows ps ps' := by
  obtain ⟨⟨-, -, hp, -⟩, rfl⟩ := settle_eq h
  exact of_update _ hp

theorem react {threw : Bool} (h : ps.react i threw = some ps') : Grows ps ps' := by
  obtain ⟨⟨-, hp, -⟩, rfl⟩ := react_eq h
  exact of_update _ hp

/-- What a promise was to become it is still to become. -/
theorem outcome (h : Grows ps ps') {threw : Bool} (ho : ps.outcome threw origin ≠ .pending) :
    ps'.outcome threw origin = ps.outcome threw origin := by
  cases origin with
  | outer => exact absurd rfl ho
  | all promises =>
    have hkept : ∀ {j status}, ps.status j = status → status ≠ .pending →
        ps'.status j = status := fun hj hne => (h.status _ (hj ▸ hne)).trans hj
    rcases hs : ps.outcome threw (.all promises)
    · exact absurd hs ho
    · have hall := outcome_all_fulfilled.1 hs
      exact outcome_all_fulfilled.2 fun j hj => hkept (hall j hj) (by simp)
    · obtain ⟨j, hj, hr⟩ := outcome_all_rejected.1 hs
      exact outcome_all_rejected.2 ⟨j, hj, hkept hr (by simp)⟩
  | allSettled promises =>
    have hall := outcome_allSettled.1 ho
    have ho' : ps'.outcome threw (.allSettled promises) ≠ .pending :=
      outcome_allSettled.2 fun j hj => h.settled (hall j hj)
    have hne : ps.outcome threw (.allSettled promises) ≠ .rejected :=
      outcome_allSettled_ne_rejected
    have hne' : ps'.outcome threw (.allSettled promises) ≠ .rejected :=
      outcome_allSettled_ne_rejected
    cases hs : ps.outcome threw (.allSettled promises) <;>
      cases hs' : ps'.outcome threw (.allSettled promises) <;> simp_all
  | onRejected promise handler =>
    simp only [Promises.outcome, h.status promise (outcome_onRejected ho)]
  | onFinally promise => exact h.status promise ho

end Grows

/-- Promises as they are made one after the other, of those that were there, and settled as those
they are made of say. -/
structure WellFormed (ps : Promises) : Prop where
  pending : ∀ i, ps.count ≤ i → ps.status i = .pending
  sources : ∀ i < ps.count, ∀ j ∈ (ps.origin i).sources, j < i
  settled : ∀ i < ps.count, ps.status i ≠ .pending → ps.origin i = .outer
    ∨ ∃ threw, ps.outcome threw (ps.origin i) = ps.status i
  handled : ∀ j, ps.handled j = true ↔ ∃ i < ps.count, j ∈ (ps.origin i).sources

theorem wellFormed_empty : WellFormed {} where
  pending _ _ := rfl
  sources i hi := absurd hi (Nat.not_lt_zero i)
  settled i hi := absurd hi (Nat.not_lt_zero i)
  handled j := by simp

namespace WellFormed

theorem create (h : WellFormed ps) (ho : ∀ j ∈ origin.sources, j < ps.count) :
    WellFormed (ps.create origin) where
  pending i hi := h.pending i (Nat.le_of_succ_le hi)
  sources i hi j hj := by
    rcases Nat.lt_succ_iff_lt_or_eq.1 hi with hi | rfl
    · rw [create_origin hi] at hj
      exact h.sources i hi j hj
    · rw [create_origin_self] at hj
      exact ho j hj
  settled i hi hs := by
    rcases Nat.lt_succ_iff_lt_or_eq.1 hi with hi | rfl
    · rw [create_origin hi]
      exact h.settled i hi hs
    · exact absurd (h.pending ps.count (Nat.le_refl _)) hs
  handled j := by
    have hor : (ps.create origin).handled j = true
        ↔ (∃ i < ps.count, j ∈ (ps.origin i).sources) ∨ j ∈ origin.sources := by
      rw [← h.handled j]
      simp [Promises.create]
    rw [hor]
    constructor
    · rintro (⟨i, hi, hj⟩ | hj)
      · exact ⟨i, Nat.lt_succ_of_lt hi, by rwa [create_origin hi]⟩
      · exact ⟨ps.count, Nat.lt_succ_self _, by rwa [create_origin_self]⟩
    · rintro ⟨i, hi, hj⟩
      rcases Nat.lt_succ_iff_lt_or_eq.1 hi with hi | rfl
      · exact .inl ⟨i, hi, by rwa [create_origin hi] at hj⟩
      · exact .inr (by rwa [create_origin_self] at hj)

/-- A pending promise settles, from outside or as it is to. -/
theorem update (h : WellFormed ps) {status : PromiseStatus} (hi : i < ps.count)
    (hp : ps.status i = .pending)
    (ho : ps.origin i = .outer ∨ ∃ threw, ps.outcome threw (ps.origin i) = status)
    (hs : status ≠ .pending) :
    WellFormed { ps with status := Function.update ps.status i status } where
  pending j hj := by
    have hne : j ≠ i := fun hji => absurd (hji ▸ hj) (Nat.not_le_of_lt hi)
    exact (Function.update_of_ne hne ..).trans (h.pending j hj)
  sources := h.sources
  settled j hj hsj := by
    have hg := Grows.of_update status hp
    by_cases hji : j = i
    · subst hji
      simp only [Function.update_self]
      exact ho.imp_right fun ⟨threw, ht⟩ => ⟨threw, (hg.outcome (ht ▸ hs)).trans ht⟩
    · simp only [Function.update_of_ne hji] at hsj ⊢
      exact (h.settled j hj hsj).imp_right fun ⟨threw, ht⟩ =>
        ⟨threw, (hg.outcome (ht ▸ hsj)).trans ht⟩
  handled := h.handled

theorem settle (h : WellFormed ps) {status : PromiseStatus} (hs : ps.settle i status = some ps') :
    WellFormed ps' := by
  obtain ⟨⟨hi, ho, hp, hne⟩, rfl⟩ := settle_eq hs
  exact h.update hi hp (.inl ho) hne

theorem react (h : WellFormed ps) {threw : Bool} (hs : ps.react i threw = some ps') :
    WellFormed ps' := by
  obtain ⟨⟨hi, hp, hne⟩, rfl⟩ := react_eq hs
  exact h.update hi hp (.inr ⟨threw, rfl⟩) hne

theorem reject (h : WellFormed ps) : WellFormed ps.reject := by
  have hcreate : WellFormed (ps.create .outer) := h.create (by simp [PromiseOrigin.sources])
  exact hcreate.update (Nat.lt_succ_self _) (h.pending _ (Nat.le_refl _))
    (.inl (create_origin_self ..)) (by simp)

section Settled

variable {promises : List ℕ}

theorem of_all_rejected (h : WellFormed ps) (hi : i < ps.count) (ho : ps.origin i = .all promises)
    (hs : ps.status i = .rejected) : ∃ j ∈ promises, ps.status j = .rejected := by
  obtain hout | ⟨threw, ht⟩ := h.settled i hi (by simp [hs])
  · simp [ho] at hout
  · rw [ho, hs] at ht
    exact outcome_all_rejected.1 ht

theorem of_all_fulfilled (h : WellFormed ps) (hi : i < ps.count) (ho : ps.origin i = .all promises)
    (hs : ps.status i = .fulfilled) : ∀ j ∈ promises, ps.status j = .fulfilled := by
  obtain hout | ⟨threw, ht⟩ := h.settled i hi (by simp [hs])
  · simp [ho] at hout
  · rw [ho, hs] at ht
    exact outcome_all_fulfilled.1 ht

theorem of_allSettled (h : WellFormed ps) (hi : i < ps.count)
    (ho : ps.origin i = .allSettled promises) (hs : ps.status i ≠ .pending) :
    ∀ j ∈ promises, ps.status j ≠ .pending := by
  obtain hout | ⟨threw, ht⟩ := h.settled i hi hs
  · simp [ho] at hout
  · rw [ho] at ht
    exact outcome_allSettled.1 (ht ▸ hs)

theorem of_onRejected (h : WellFormed ps) (hi : i < ps.count) {handler : Bool}
    (ho : ps.origin i = .onRejected j handler) (hs : ps.status i ≠ .pending) :
    ps.status j ≠ .pending := by
  obtain hout | ⟨threw, ht⟩ := h.settled i hi hs
  · simp [ho] at hout
  · rw [ho] at ht
    exact outcome_onRejected (ht ▸ hs)

/-- Without a handler a rejection passes through. -/
theorem of_onRejected_false (h : WellFormed ps) (hi : i < ps.count)
    (ho : ps.origin i = .onRejected j false) (hs : ps.status i ≠ .pending) :
    ps.status i = ps.status j := by
  obtain hout | ⟨threw, ht⟩ := h.settled i hi hs
  · simp [ho] at hout
  · rw [ho] at ht
    simpa [outcome] using ht.symm

theorem of_onFinally (h : WellFormed ps) (hi : i < ps.count) (ho : ps.origin i = .onFinally j)
    (hs : ps.status i ≠ .pending) : ps.status i = ps.status j := by
  obtain hout | ⟨threw, ht⟩ := h.settled i hi hs
  · simp [ho] at hout
  · rw [ho] at ht
    exact ht.symm

end Settled

end WellFormed

end Promises
