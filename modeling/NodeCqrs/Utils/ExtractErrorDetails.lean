import Mathlib.Data.Nat.Notation
import Mathlib.Data.List.Basic

/-!
# `extractErrorDetails`

What is thrown is a value in a graph of values, which errors refer to as their causes and as the
errors that they aggregate. A call is given the depth of the stack that is left for it, and throws
where there is none.
-/

namespace NodeCqrs

namespace ExtractErrorDetails

/-- An `Error`; only an `AggregateError` has `errors`. -/
structure ErrorObject (R C : Type) where
  name : String := "Error"
  message : String
  code : Option C := none
  stack : Option String := none
  cause : Option R := none
  errors : Option (List R) := none
deriving DecidableEq, Repr

/-- An object that is no `Error`; a `name` or `message` that is not a string is not there. -/
structure PlainObject (C : Type) where
  name : Option String := none
  /-- The name of its prototype's constructor. -/
  constructorName : Option String := some "Object"
  message : Option String := none
  code : Option C := none
  /-- `String` of it, if that does not throw. -/
  text : Option String := some "[object Object]"
deriving DecidableEq, Repr

inductive Value (R C : Type)
  | error (e : ErrorObject R C)
  | object (o : PlainObject C)
  | primitive (text : String) (truthy : Bool)
deriving DecidableEq, Repr

structure ErrorDetails (C : Type) where
  name : Option String
  message : String
  code : Option C
  stack : Option String
  cause : Option (ErrorDetails C)

variable {R C : Type}

namespace Value

def truthy : Value R C → Bool
  | .primitive _ truthy => truthy
  | .error _ | .object _ => true

def code : Value R C → Option C
  | .error e => e.code
  | .object o => o.code
  | .primitive _ _ => none

def stack : Value R C → Option String
  | .error e => e.stack
  | .object _ | .primitive _ _ => none

/-- `errors`, where there are any. -/
def errors : Value R C → List R
  | .error e => e.errors.getD []
  | .object _ | .primitive _ _ => []

end Value

def extractErrorName : Value R C → Option String
  | .error e => some e.name
  | .object o => o.name <|> o.constructorName
  | .primitive _ _ => none

/-- `err.cause`, if it is truthy. -/
def cause (graph : R → Value R C) (err : R) : Option R :=
  match graph err with
  | .error e => e.cause.filter (graph · |>.truthy)
  | .object _ | .primitive _ _ => none

def extractErrorMessage (graph : R → Value R C) : ℕ → R → Option String
  | 0, _ => none
  | depth + 1, err =>
    match graph err with
    | .error e =>
      if (graph err).errors = [] then some e.message
      else do
        let messages ← (graph err).errors.mapM (extractErrorMessage graph depth)
        return "; ".intercalate ((e.message :: messages).filter (· ≠ ""))
    | .object o => o.message <|> o.text
    | .primitive text _ => some text

end ExtractErrorDetails

open ExtractErrorDetails

def extractErrorDetails {R C : Type} (graph : R → Value R C) : ℕ → R → Option (ErrorDetails C)
  | 0, _ => none
  | depth + 1, err => do
    let message ← extractErrorMessage graph depth err
    let cause ← (cause graph err).mapM (extractErrorDetails graph depth)
    return {
      name := extractErrorName (graph err)
      message
      code := (graph err).code
      stack := (graph err).stack
      cause }

end NodeCqrs
