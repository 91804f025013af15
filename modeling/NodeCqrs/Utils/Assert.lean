import Mathlib.Algebra.Group.Nat.Defs
import Mathlib.Data.Int.Notation
import NodeCqrs.Event

/-!
# Assertions

What the checks of arguments throw.
-/

namespace NodeCqrs

/-- `Number.MAX_SAFE_INTEGER` -/
def MAX_SAFE_INTEGER : ℕ := 2 ^ 53 - 1

def assertNonNegativeInteger (value : ℤ) (argName : String) : Except String Unit :=
  if MAX_SAFE_INTEGER < value.natAbs || value < 0 then
    .error (argName ++ " must be a non-negative integer")
  else .ok ()

def assertDefined {α : Type} [Truthy α] (value : α) (argName : String) : Except String Unit :=
  if truthy value then .ok () else .error (argName ++ " is required")

def assertNotDefined {α : Type} (value : Option α) (argName : String) : Except String Unit :=
  if value.isSome then .error (argName ++ " must not be defined") else .ok ()

def assertFunction {α : Type} (value : Option α) (argName : String) : Except String Unit :=
  if value.isSome then .ok () else .error (argName ++ " must be a Function")

/-- `isMessage` -/
def isMessage {I V : Type} (command : Command I V) : Bool := command.type ≠ ""

def assertMessage {I V : Type} (value : Command I V) (argName : String) : Except String Unit :=
  if isMessage value then .ok () else .error (argName ++ " must be a valid IMessage")

def assertEvent {I V : Type} (value : Event I V) (argName : String) : Except String Unit :=
  if isEvent value then .ok () else .error (argName ++ " must be a valid IEvent")

end NodeCqrs
