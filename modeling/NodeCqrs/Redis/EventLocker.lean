import Mathlib.Logic.Function.Basic
import NodeCqrs.Redis.Key

/-!
# `RedisEventLocker`

The event locks of one projection name and schema version, by event id, and the scripts on them.
-/

namespace NodeCqrs

inductive EventLockValue
  | processing
  | processed
deriving DecidableEq, Repr

structure RedisEventLocker where
  eventLocks : String → Option (RedisKey EventLockValue) := fun _ => none

namespace RedisEventLocker

/-- `SCRIPT_TRY_LOCK`: what it makes of the key, and its result; the script ends with the error of
its `SET`. -/
def SCRIPT_TRY_LOCK (eventLockTtl : ℕ) (now : ℤ) (key : Option (RedisKey EventLockValue)) :
    Except String (Option (RedisKey EventLockValue) × ℕ) :=
  match RedisKey.get now key with
  | some _ => .ok (key, 0)
  | none => (RedisKey.setPX now .processing eventLockTtl).map fun k => (some k, 1)

/-- `SCRIPT_FINALIZE_LOCK` -/
def SCRIPT_FINALIZE_LOCK (now : ℤ) (key : Option (RedisKey EventLockValue)) :
    Option (RedisKey EventLockValue) × ℕ :=
  match RedisKey.get now key with
  | some .processing => (some { value := .processed }, 1)
  | _ => (key, 0)

def set (s : RedisEventLocker) (eventId : String) (key : Option (RedisKey EventLockValue)) :
    RedisEventLocker :=
  { s with eventLocks := Function.update s.eventLocks eventId key }

def tryMarkAsProjecting (eventLockTtl : ℕ) (now : ℤ) (s : RedisEventLocker) (eventId : String) :
    Except String (RedisEventLocker × Bool) :=
  (SCRIPT_TRY_LOCK eventLockTtl now (s.eventLocks eventId)).map fun (key, result) =>
    (s.set eventId key, result = 1)

/-- With a result other than one, `markAsProjected` throws. -/
def markAsProjected (now : ℤ) (s : RedisEventLocker) (eventId : String) :
    Option RedisEventLocker :=
  let (key, result) := SCRIPT_FINALIZE_LOCK now (s.eventLocks eventId)
  if result = 1 then some (s.set eventId key) else none

end RedisEventLocker

end NodeCqrs
