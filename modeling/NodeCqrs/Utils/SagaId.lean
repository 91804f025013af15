import Mathlib.Data.Nat.Notation

/-!
# Saga identifiers

`<sagaDescriptor>:<originEventId>`. A descriptor may hold colons, an event id is what stands behind
the last one.
-/

namespace NodeCqrs

/-- `assertString` -/
def assertString (value argName : String) : Except String String :=
  if value = "" then .error (argName ++ " must be a non-empty String") else .ok value

def makeSagaId (sagaDescriptor originEventId : String) : Except String String := do
  let sagaDescriptor ← assertString sagaDescriptor "sagaDescriptor"
  let originEventId ← assertString originEventId "originEventId"
  return sagaDescriptor ++ ":" ++ originEventId

def parseSagaId (sagaId : String) : Except String (String × String) := do
  let sagaId ← assertString sagaId "sagaId"
  let originEventId := (sagaId.toList.reverse.takeWhile (· ≠ ':')).reverse
  -- what stands before the id, without the separator
  let sagaDescriptor := ((sagaId.toList.reverse.dropWhile (· ≠ ':')).drop 1).reverse
  if sagaDescriptor = [] ∨ originEventId = [] then
    .error "sagaId argument must match \"<sagaDescriptor>:<originEventId>\" format"
  else .ok (String.ofList sagaDescriptor, String.ofList originEventId)

end NodeCqrs
