import NodeCqrs.InMemory.MessageBus

/-!
# Subscriptions of an `InMemoryMessageBus`

The calls of `on` and `off` on one bus, or on one named queue, beside the set of the pairs they add
and remove.
-/

namespace NodeCqrs

/-- A set of pairs of a message type and a handler, in the order they were added. -/
abbrev HandlerSet := List (String × ℕ)

namespace HandlerSet

def handlersOf (pairs : HandlerSet) (messageType : String) : List ℕ :=
  (pairs.filter (·.1 = messageType)).map Prod.snd

/-- With unique handlers, a type that has one takes no other. -/
def on (pairs : HandlerSet) (uniqueEventHandlers : Bool) (messageType : String) (handler : ℕ) :
    Option HandlerSet :=
  if messageType = "" ∨ uniqueEventHandlers ∧ pairs.handlersOf messageType ≠ [] then none
  else some (if (messageType, handler) ∈ pairs then pairs else pairs ++ [(messageType, handler)])

def off (pairs : HandlerSet) (messageType : String) (handler : ℕ) : Option HandlerSet :=
  if messageType = "" ∨ pairs.handlersOf messageType = [] then none
  else some (pairs.erase (messageType, handler))

def send {I V : Type} (pairs : HandlerSet) (command : Command I V) : Except String ℕ :=
  if command.type = "" then .error "command must be a valid IMessage"
  else soleHandler command.type (pairs.handlersOf command.type)

end HandlerSet

/-- `handlers` of the bus, and the pairs that its calls add and remove. -/
structure Subscribed where
  handlers : MessageHandlers := []
  pairs : HandlerSet := []

namespace Subscribed

inductive Call
  | on (messageType : String) (handler : ℕ)
  | off (messageType : String) (handler : ℕ)
deriving DecidableEq, Repr

/-- A call that throws has no effect. -/
def step (uniqueEventHandlers : Bool) (s : Subscribed) : Call → Subscribed
  | .on messageType handler =>
    { handlers := (s.handlers.on uniqueEventHandlers messageType handler).getD s.handlers
      pairs := (s.pairs.on uniqueEventHandlers messageType handler).getD s.pairs }
  | .off messageType handler =>
    { handlers := (s.handlers.off messageType handler).getD s.handlers
      pairs := (s.pairs.off messageType handler).getD s.pairs }

def machine (uniqueEventHandlers : Bool) : Machine Subscribed Call where
  Init s := s = {}
  step s call := some (step uniqueEventHandlers s call)

/-- `on`, `off`, `send` and `publish` do what they do of the set of pairs. -/
structure Behaves (uniqueEventHandlers : Bool) (handlers : MessageHandlers) (pairs : HandlerSet) :
    Prop where
  on : ∀ messageType handler, (handlers.on uniqueEventHandlers messageType handler).isSome
    = (pairs.on uniqueEventHandlers messageType handler).isSome
  off : ∀ messageType handler,
    (handlers.off messageType handler).isSome = (pairs.off messageType handler).isSome
  send : ∀ (I V : Type) (command : Command I V), handlers.send command = pairs.send command
  publish : ∀ messageType, (handlers.lookup messageType).getD [] = pairs.handlersOf messageType

/-- `on`, `off`, `send` and `publish` do the same on both. -/
structure Alike (uniqueEventHandlers : Bool) (handlers handlers' : MessageHandlers) : Prop where
  on : ∀ messageType handler, (handlers.on uniqueEventHandlers messageType handler).isSome
    = (handlers'.on uniqueEventHandlers messageType handler).isSome
  off : ∀ messageType handler,
    (handlers.off messageType handler).isSome = (handlers'.off messageType handler).isSome
  send : ∀ (I V : Type) (command : Command I V), handlers.send command = handlers'.send command
  publish : ∀ messageType,
    (handlers.lookup messageType).getD [] = (handlers'.lookup messageType).getD []

end Subscribed

end NodeCqrs
