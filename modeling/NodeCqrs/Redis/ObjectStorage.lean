import Mathlib.Algebra.Group.Nat.Defs
import NodeCqrs.ObjectStorage

/-!
# `RedisObjectStorage`

The envelope's `d` and `v` are the record's data and version.
-/

namespace NodeCqrs

variable {D : Type}

namespace RedisObjectStorage

/-- Lua's `tostring` of a version is JavaScript's `String` of another: from fifteen digits on
`tostring` writes an exponent. -/
def sameString (v expected : ℕ) : Bool := v = expected && v < 10 ^ 14

/-- `SCRIPT_UPDATE_IF_VERSION` -/
def SCRIPT_UPDATE_IF_VERSION (envelope : Versioned D) (updated : D) :
    Option (Versioned D) → Option (Versioned D) × UpdateResult
  | none => (none, .missing)
  | some r =>
    if sameString r.version envelope.version then
      (some { data := updated, version := envelope.version + 1 }, .updated)
    else (some r, .conflict)

end RedisObjectStorage

def redisObjectStorage : ObjectStorage D := ⟨RedisObjectStorage.SCRIPT_UPDATE_IF_VERSION⟩

end NodeCqrs
