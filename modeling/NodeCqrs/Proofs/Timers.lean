import Mathlib.Tactic.Common
import NodeCqrs.Utils.Timers

/-!
# Which timers are armed
-/

namespace NodeCqrs

namespace Timers

variable {t : Timers} {handle : ℕ} {timer : Timer}

theorem armed_clear {cleared : ℕ} :
    (t.clear cleared).armed handle = some timer ↔ handle ≠ cleared ∧ t.armed handle = some timer := by
  by_cases h : handle = cleared <;> simp [clear, h]

theorem armed_clearTimeout {cleared : Option ℕ} : (t.clearTimeout cleared).armed handle = some timer ↔
    cleared ≠ some handle ∧ t.armed handle = some timer := by
  cases cleared with
  | none => simp [clearTimeout]
  | some cleared =>
    have hne : handle ≠ cleared ↔ some cleared ≠ some handle := by simp [eq_comm]
    rw [← hne]
    exact armed_clear

theorem armed_setTimeout {owner : ℕ} {due : ℤ} :
    (t.setTimeout owner due).armed handle = some timer ↔
      handle = t.nextHandle ∧ timer = { owner, due } ∨
        handle ≠ t.nextHandle ∧ t.armed handle = some timer := by
  by_cases h : handle = t.nextHandle <;> simp [setTimeout, h, eq_comm]

end Timers

theorem halfTimeout_pos (ttl : ℤ) : 0 < halfTimeout ttl := by
  unfold halfTimeout
  split_ifs <;> omega

end NodeCqrs
