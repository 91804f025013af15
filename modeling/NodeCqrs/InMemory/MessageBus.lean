import NodeCqrs.Publishing

/-!
# `InMemoryMessageBus`

The bus and its named queues, which are buses of their own with one handler an event type. A handler
is called at once; one that throws, or returns no promise, is one whose promise settles at once.
-/

namespace NodeCqrs

/-- `Map<string, Set<IMessageHandler>>` -/
abbrev MessageHandlers := List (String × List ℕ)

/-- `on`; `none` where it throws. -/
def MessageHandlers.on (handlers : MessageHandlers) (uniqueEventHandlers : Bool)
    (messageType : String) (handler : ℕ) : Option MessageHandlers :=
  if messageType = "" then none
  else if messageType ∈ handlers.map Prod.fst then
    if uniqueEventHandlers then none
    else some (handlers.map fun entry =>
      if entry.1 = messageType ∧ handler ∉ entry.2 then (entry.1, entry.2 ++ [handler])
      else entry)
  else some (handlers ++ [(messageType, [handler])])

/-- `off`; the key stays. -/
def MessageHandlers.off (handlers : MessageHandlers) (messageType : String) (handler : ℕ) :
    Option MessageHandlers :=
  if messageType = "" ∨ messageType ∉ handlers.map Prod.fst then none
  else some (handlers.map fun entry =>
    if entry.1 = messageType then (entry.1, entry.2.erase handler) else entry)

/-- Who of the handlers of its type a command is passed to. -/
def soleHandler (commandType : String) : List ℕ → Except String ℕ
  | [] => .error ("No '" ++ commandType ++ "' subscribers found")
  | [handler] => .ok handler
  | _ => .error ("More than one '" ++ commandType ++ "' subscriber found")

/-- `send`, up to the call of the handler. -/
def MessageHandlers.send {I V : Type} (handlers : MessageHandlers) (command : Command I V) :
    Except String ℕ :=
  if command.type = "" then .error "command must be a valid IMessage"
  else soleHandler command.type ((handlers.lookup command.type).getD [])

structure InMemoryMessageBus where
  handlers : MessageHandlers := []
  queues : List (String × MessageHandlers) := []
deriving DecidableEq, Repr

namespace InMemoryMessageBus

/-- `queue` -/
def queue (bus : InMemoryMessageBus) (queueName : String) : InMemoryMessageBus :=
  if queueName ∈ bus.queues.map Prod.fst then bus
  else { bus with queues := bus.queues ++ [(queueName, [])] }

/-- A queue goes on to what `f` makes of it, if that does not throw. -/
def updateQueue (bus : InMemoryMessageBus) (queueName : String)
    (f : MessageHandlers → Option MessageHandlers) : Option InMemoryMessageBus := do
  let queues ← (bus.queue queueName).queues.mapM fun entry =>
    if entry.1 = queueName then (f entry.2).map (entry.1, ·) else some entry
  return { bus with queues }

/-- The calls that change who is subscribed, on the bus or on a named queue, and `queue`. -/
inductive Call
  | on (messageType : String) (handler : ℕ)
  | off (messageType : String) (handler : ℕ)
  | queue (queueName : String)
  | queueOn (queueName messageType : String) (handler : ℕ)
  | queueOff (queueName messageType : String) (handler : ℕ)
deriving DecidableEq, Repr

def call (bus : InMemoryMessageBus) : Call → Option InMemoryMessageBus
  | .on messageType handler =>
    (bus.handlers.on false messageType handler).map fun handlers => { bus with handlers }
  | .off messageType handler =>
    (bus.handlers.off messageType handler).map fun handlers => { bus with handlers }
  | .queue queueName => some (bus.queue queueName)
  | .queueOn queueName messageType handler =>
    bus.updateQueue queueName (·.on true messageType handler)
  | .queueOff queueName messageType handler =>
    bus.updateQueue queueName (·.off messageType handler)

/-- The promises of the calls to as many handlers. -/
def callHandlers (ps : Promises) : ℕ → Promises
  | 0 => ps
  | n + 1 => (callHandlers ps n).create .outer

/-- `this.handlers.get(event.type) ?? []`, as a number. -/
def handlerCount (handlers : MessageHandlers) (messageType : String) : ℕ :=
  ((handlers.lookup messageType).getD []).length

/-- `publish` of a queue, which has no queues. -/
def publishQueue (ps : Promises) (handlers : MessageHandlers) (messageType : String) : Published :=
  let n := handlerCount handlers messageType
  let ps' := callHandlers ps n
  { promises := ps'.create (.all (List.range' ps.count n))
    result := ps'.count
    handlers := List.range' ps.count n }

/-- The loop over the queues, with the promises pushed. -/
def publishQueues (ps : Promises) (messageType : String) :
    List (String × MessageHandlers) → Promises × List ℕ × List ℕ
  | [] => (ps, [], [])
  | (_, handlers) :: queues =>
    let published := publishQueue ps handlers messageType
    let (ps', results, handlers') := publishQueues published.promises messageType queues
    (ps', published.result :: results, published.handlers ++ handlers')

/-- `publish` -/
def publish {I V : Type} (bus : InMemoryMessageBus) (ps : Promises) (event : Event I V) :
    Published :=
  if isEvent event then
    let n := handlerCount bus.handlers event.type
    let (ps', results, handlers) := publishQueues (callHandlers ps n) event.type bus.queues
    { promises := ps'.create (.all (List.range' ps.count n ++ results))
      result := ps'.count
      handlers := List.range' ps.count n ++ handlers }
  else { promises := ps.reject, result := ps.count }

def eventBus (I V : Type) : EventBus InMemoryMessageBus Call I V where
  call := call
  publish := publish

end InMemoryMessageBus

end NodeCqrs
