import Mathlib.Algebra.Group.Int.Defs
import Mathlib.Data.Int.Notation
import Mathlib.Data.Nat.Notation
import Mathlib.Logic.Function.Basic

/-!
# `setTimeout` and `clearTimeout`

The timers of any number of owners, by handle. A timer that is due may fire at any later time.
-/

namespace NodeCqrs

structure Timer where
  owner : ℕ
  due : ℤ
deriving DecidableEq, Repr

structure Timers where
  nextHandle : ℕ := 0
  armed : ℕ → Option Timer := fun _ => none

/-- What Node.js takes the half of a TTL for: a delay that is less than a millisecond or does not
fit 32 bits is one of a millisecond, others lose their fraction. -/
def halfTimeout (ttl : ℤ) : ℤ := if 2 ≤ ttl ∧ ttl ≤ 2 * (2 ^ 31 - 1) then ttl / 2 else 1

namespace Timers

/-- The timers with one more, under `nextHandle`. -/
def setTimeout (t : Timers) (owner : ℕ) (due : ℤ) : Timers :=
  { nextHandle := t.nextHandle + 1
    armed := Function.update t.armed t.nextHandle (some { owner, due }) }

def clear (t : Timers) (handle : ℕ) : Timers :=
  { t with armed := Function.update t.armed handle none }

/-- `clearTimeout`, which takes an undefined handle too. -/
def clearTimeout (t : Timers) (handle : Option ℕ) : Timers := handle.elim t t.clear

end Timers

end NodeCqrs
