import NodeCqrs.SagaEventHandler

/-!
# What a `SagaEventHandler` does for each saga

A `SagaEventHandler` with what it has handled and sent, each under the id of its saga. Beside it
stands a saga that has one event handled after the other (`oneByOne`).
-/

namespace NodeCqrs.SagaTurns

variable {I V σ D : Type}

/-- What a call has done for its saga. -/
inductive Entry (I V : Type)
  | handled (c : ℕ) (event : Event I V) (sagaOrigin : String) (commands : List (Command I V))
  | sent (c : ℕ) (command : Command I V) (resolved : Bool)

structure Sys (I V σ D : Type) where
  handler : SagaEventHandler I V σ D
  log : List (String × Entry I V) := []

variable (T : SagaOptions I V σ D)

/-- What is done by the action, under the id of the saga. -/
def entry (s : SagaEventHandler I V σ D) :
    SagaEventHandler.Action I V → Option (String × Entry I V)
  | .handled c (some commands) => do
    let call ← s.calls c
    return (call.sagaId, .handled c call.event call.sagaOrigin commands)
  | .sent c resolved => do
    let call ← s.calls c
    let command ← call.commands.head?
    return (call.sagaId, .sent c (T.attachContext call.event call.sagaOrigin command) resolved)
  | _ => none

def step (s : Sys I V σ D) (a : SagaEventHandler.Action I V) : Option (Sys I V σ D) := do
  let handler ← SagaEventHandler.step T s.handler a
  return { handler, log := s.log ++ (entry T s.handler a).toList }

def machine (eventStore : D) : Machine (Sys I V σ D) (SagaEventHandler.Action I V) :=
  ⟨(· = { handler := { eventStore } }), step T⟩

/-- The call has its saga to itself. -/
def Works (call : SagaCall I V) : Prop := call.await = .handle ∨ call.await = .send

instance (call : SagaCall I V) : Decidable (Works call) := inferInstanceAs (Decidable (_ ∨ _))

/-- A lock is not granted while one who has asked for it works. -/
def Exclusive (s : SagaEventHandler I V σ D) : SagaEventHandler.Action I V → Prop
  | .acquired c => ∀ call ∈ s.calls c, ∀ c' ∈ s.requests call.sagaId,
    ∀ call' ∈ s.calls c', ¬Works call'
  | _ => True

/-- A call that has commands left to send. -/
structure Turn (I V : Type) where
  c : ℕ
  commands : List (Command I V)

def Turn.next (c : ℕ) : List (Command I V) → Option (Turn I V)
  | [] => none
  | commands => some { c, commands }

variable [DecidableEq (Command I V)]

/-- An event is handled when none has its turn, which ends with its last command or with one that
cannot be sent. -/
def oneByOneStep (T : SagaType I V σ) (turn : Option (Turn I V)) :
    Entry I V → Option (Option (Turn I V))
  | .handled c event sagaOrigin commands =>
    if turn.isNone then some (Turn.next c (commands.map (T.attachContext event sagaOrigin)))
    else none
  | .sent c command resolved =>
    match turn with
    | some ⟨c', command' :: commands⟩ =>
      if c' = c ∧ command' = command then some (if resolved then Turn.next c commands else none)
      else none
    | _ => none

/-- A saga that has one event handled after the other. -/
def oneByOne (T : SagaType I V σ) : Machine (Option (Turn I V)) (Entry I V) :=
  ⟨(· = none), oneByOneStep T⟩

end NodeCqrs.SagaTurns
