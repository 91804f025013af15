import Mathlib.Data.Int.Notation
import NodeCqrs.AggregateCommandHandler
import NodeCqrs.Utils.Assert

/-!
# `retryOnConcurrencyError`

The attempts of one `execute` call, with what it is answered: whether there is an aggregate for an
attempt, what its `handle` returns, and what comes of each dispatch.
-/

namespace NodeCqrs

def DEFAULT_MAX_RETRY_ATTEMPTS : ℕ := 5

/-- What is thrown: a `ConcurrencyError`, or something else. -/
inductive ExecuteError
  | concurrencyError (message : String)
  | error (message : String)
deriving DecidableEq, Repr

def ExecuteError.isConcurrencyError : ExecuteError → Bool
  | .concurrencyError _ => true
  | .error _ => false

variable {E : Type}

/-- `RetryOnConcurrencyErrorResolver` -/
abbrev RetryOnConcurrencyErrorResolver (E : Type) :=
  ExecuteError → List E → ℕ → RetryOnConcurrencyErrorDecision

/-- `RetryOnConcurrencyErrorOptions` -/
inductive RetryOnConcurrencyErrorOptions (E : Type)
  | undefined
  | boolean (value : Bool)
  | ignore
  | number (value : ℤ)
  | config (maxRetries : Option ℤ) (ignoreAfterMaxRetries : Option Bool)
  | resolver (value : RetryOnConcurrencyErrorResolver E)

/-- A `ConcurrencyError` is retried as long as there are retries. -/
def retryUpTo (maxRetries : ℤ) : RetryOnConcurrencyErrorResolver E := fun err _ attempt =>
  if err.isConcurrencyError && attempt < maxRetries then .yes else .no

def normalizeRetryResolver : RetryOnConcurrencyErrorOptions E →
    Except String (RetryOnConcurrencyErrorResolver E)
  | .resolver value => .ok value
  | .boolean false => .ok fun _ _ _ => .no
  | .ignore => .ok fun err _ _ => if err.isConcurrencyError then .ignore else .no
  | .number value => .ok (retryUpTo value)
  | .config maxRetries ignoreAfterMaxRetries => do
    let maxRetries := maxRetries.getD DEFAULT_MAX_RETRY_ATTEMPTS
    let ignoreAfterMaxRetries := ignoreAfterMaxRetries.getD false
    assertNonNegativeInteger maxRetries "retryOnConcurrencyError.maxRetries"
    return fun err _ attempt =>
      if !err.isConcurrencyError then .no
      else if attempt < maxRetries then .yes
      else if ignoreAfterMaxRetries then .ignore else .no
  | .undefined | .boolean true => .ok (retryUpTo DEFAULT_MAX_RETRY_ATTEMPTS)

/-- The retries that are configured. -/
def RetryOnConcurrencyErrorOptions.retries : RetryOnConcurrencyErrorOptions E → ℕ
  | .undefined | .boolean true => DEFAULT_MAX_RETRY_ATTEMPTS
  | .boolean false | .ignore | .resolver _ => 0
  | .number value => value.toNat
  | .config maxRetries _ => (maxRetries.getD DEFAULT_MAX_RETRY_ATTEMPTS).toNat

/-- The settings that are no resolver of the user's. -/
def RetryOnConcurrencyErrorOptions.BuiltIn : RetryOnConcurrencyErrorOptions E → Prop
  | .resolver _ => False
  | _ => True

namespace AggregateCommandHandler

/-- What a call is answered: for each attempt the aggregate and its `handle`, and the dispatches in
the order they are made in. -/
structure Answers (E : Type) where
  aggregate : ℕ → Except ExecuteError Unit
  handle : ℕ → Except ExecuteError (List E)
  dispatch : ℕ → Except ExecuteError Unit

structure Dispatched (E : Type) where
  attempt : ℕ
  events : List E
  ignoreConcurrencyError : Bool
  outcome : Except ExecuteError Unit

/-- How a call ended, in which attempt, and the dispatches it made. -/
structure Executed (E : Type) where
  outcome : Except ExecuteError (List E)
  attempt : ℕ
  dispatches : List (Dispatched E)

variable (shouldRetry : RetryOnConcurrencyErrorResolver E) (a : Answers E)

/-- The second dispatch of an attempt, with `ignoreConcurrencyError`. -/
def forceDispatch (attempt : ℕ) (events : List E) (dispatches : List (Dispatched E)) :
    Executed E :=
  if events = [] then { outcome := .ok events, attempt, dispatches }
  else
    let outcome := a.dispatch dispatches.length
    { outcome := outcome.map fun _ => events
      attempt
      dispatches := dispatches ++ [{ attempt, events, ignoreConcurrencyError := true, outcome }] }

/-- The loop of `execute`, for so many attempts. -/
def executeLoop : ℕ → ℕ → List (Dispatched E) → Option (Executed E)
  | 0, _, _ => none
  | fuel + 1, attempt, dispatches =>
    match (a.aggregate attempt).bind fun _ => a.handle attempt with
    | .error error => some { outcome := .error error, attempt, dispatches }
    | .ok events =>
      if events = [] then some { outcome := .ok events, attempt, dispatches }
      else
        let outcome := a.dispatch dispatches.length
        let dispatches :=
          dispatches ++ [{ attempt, events, ignoreConcurrencyError := false, outcome }]
        match outcome with
        | .ok _ => some { outcome := .ok events, attempt, dispatches }
        | .error error =>
          match shouldRetry error events attempt with
          | .no => some { outcome := .error error, attempt, dispatches }
          | .ignore => some (forceDispatch a attempt events dispatches)
          | .yes => executeLoop fuel (attempt + 1) dispatches

def execute (fuel : ℕ) : Option (Executed E) := executeLoop shouldRetry a fuel 0 []

def Dispatched.succeeded (d : Dispatched E) : Bool := d.outcome.isOk

end AggregateCommandHandler

end NodeCqrs
