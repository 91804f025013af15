import Mathlib.Data.Int.Notation
import Mathlib.Data.Nat.Notation

/-!
# Redis keys that expire

A key and the commands on it that the scripts use. A key is gone after the time it expires at.
-/

namespace NodeCqrs

structure RedisKey (V : Type) where
  value : V
  expiresAt : Option ℤ := none
deriving DecidableEq, Repr

namespace RedisKey

variable {V : Type}

/-- `GET` -/
def get (now : ℤ) (key : Option (RedisKey V)) : Option V :=
  key.bind fun k => if ∀ t ∈ k.expiresAt, now ≤ t then some k.value else none

/-- `SET … PX`, which fails for an expiry that is not positive. -/
def setPX (now : ℤ) (value : V) (px : ℕ) : Except String (RedisKey V) :=
  if px = 0 then .error "ERR invalid expire time in 'set' command"
  else .ok { value, expiresAt := some (now + px) }

/-- `SET … PX … NX`, and whether it is OK. -/
def setNX (now : ℤ) (value : V) (px : ℕ) (key : Option (RedisKey V)) :
    Except String (Option (RedisKey V) × Bool) :=
  (setPX now value px).map fun k => if (get now key).isSome then (key, false) else (some k, true)

/-- `PEXPIRE`, which deletes the key if the time is not positive. -/
def pexpire (now : ℤ) (px : ℕ) (key : Option (RedisKey V)) : Option (RedisKey V) :=
  key.bind fun k => if px = 0 then none else some { k with expiresAt := some (now + px) }

end RedisKey

end NodeCqrs
