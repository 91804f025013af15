import Mathlib.Data.List.Basic
import Mathlib.Tactic.Common

/-!
# Ledgers

A log that takes a batch as a whole, if no entry of it conflicts with one before it, stored or in the
batch itself. A ledger with more conflicts agrees with it on the batches that have none of those.
-/

namespace Ledger

variable {α : Type*}

/-- No entry of the batch conflicts with one before it. -/
def accepts (conflict : α → α → Bool) : List α → List α → Bool
  | _, [] => true
  | log, a :: batch => log.all (!conflict a ·) && accepts conflict (log ++ [a]) batch

/-- The batch is added, or refused. -/
def commit (conflict : α → α → Bool) (log batch : List α) : Bool × List α :=
  if accepts conflict log batch then (true, log ++ batch) else (false, log)

variable {conflict conflict' : α → α → Bool}

theorem accepts_or : ∀ (log batch : List α),
    accepts (fun a b => conflict a b || conflict' a b) log batch
      = (accepts conflict log batch && accepts conflict' log batch)
  | _, [] => rfl
  | log, a :: batch => by
    have hall : log.all (fun b => !(conflict a b || conflict' a b))
        = (log.all (!conflict a ·) && log.all (!conflict' a ·)) := by
      rw [Bool.eq_iff_iff]
      simp only [Bool.and_eq_true, List.all_eq_true, ← forall₂_and, Bool.not_or]
    rw [accepts, accepts, accepts, hall, accepts_or (log ++ [a]) batch]
    ac_rfl

/-- Without a further conflict, the further conflicts make no difference. -/
theorem commit_or {log batch : List α}
    (h : accepts conflict log batch = true → accepts conflict' log batch = true) :
    commit (fun a b => conflict a b || conflict' a b) log batch = commit conflict log batch := by
  unfold commit
  rw [accepts_or]
  by_cases ha : accepts conflict log batch = true
  · rw [ha, h ha]
    rfl
  · rw [Bool.not_eq_true] at ha
    rw [ha]
    rfl

theorem of_commit_or {log batch : List α}
    (h : (commit (fun a b => conflict a b || conflict' a b) log batch).1
      = (commit conflict log batch).1) (ha : accepts conflict log batch = true) :
    accepts conflict' log batch = true := by
  unfold commit at h
  rw [accepts_or, ha] at h
  by_contra hne
  rw [Bool.not_eq_true] at hne
  rw [hne] at h
  cases h

end Ledger
