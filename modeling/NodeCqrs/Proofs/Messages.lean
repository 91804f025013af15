import Mathlib.Logic.Relation
import NodeCqrs.Lib.Entries
import NodeCqrs.Messages
import NodeCqrs.Proofs.SagaEventHandler
import NodeCqrs.Proofs.SagaId

/-!
# What sagas pass on

No step writes to a message with an id (`Grows`), so what its cause gave a message stays true
(`Sound`). By induction along the causes, the origins of an event are those of the event that
triggered it, but for that of the saga in between, and each is the id of an event that saga was
started at (`sagaOrigins_propagate`).
-/

namespace NodeCqrs

theorem lookup_setProperty (properties : List (String × String)) (key value key' : String) :
    (setProperty properties key value).lookup key'
      = if key' = key then some value else properties.lookup key' := by
  unfold setProperty
  by_cases hmem : key ∈ properties.map Prod.fst
  · -- the property is set where it is
    have hmap : (properties.map fun p => if p.1 = key then (key, value) else p)
        = properties.map fun p => if p.1 = key then (p.1, value) else p := by
      refine List.map_congr_left fun p _ => ?_
      split_ifs with hp
      · rw [hp]
      · rfl
    obtain ⟨old, hold⟩ := Entries.mem_keys.1 hmem
    rw [if_pos hmem, hmap, Entries.lookup_map fun _ => value]
    split_ifs with hkey
    · rw [hkey, hold, Option.map_some]
    · rfl
  · rw [if_neg hmem, Entries.lookup_concat (Entries.lookup_eq_none hmem)]

namespace Messages

variable {K I V : Type} {σ : K → Type} {sagas : ∀ k, SagaType I V (σ k)} {s s' : Messages K I V}
  {message message' : Message K I V}

/-- What each action can do. -/
inductive Effect (sagas : ∀ k, SagaType I V (σ k)) (s : Messages K I V) :
    Action K I V → Messages K I V → Prop
  | received (message : Message K I V) : Effect sagas s (.received message) { s with
      messages := s.messages ++ [{ message with cause := .received, sagaOrigins := none }] }
  | refused {a : Action K I V} : Effect sagas s a s
  | identified {i : ℕ} {id : String} {message : Message K I V} : s.messages[i]? = some message →
      (∀ k e, message.cause ≠ .enqueued k e) → message.id.getD "" = "" →
      Effect sagas s (.identified i id)
        { s with messages := s.messages.set i { message with id := some id } }
  | handle {h i : ℕ} {k : K} {message : Message K I V} {factory : SagaFactory I V}
      {sagaId sagaOrigin : String} : s.calls h = none → s.messages[i]? = some message →
      (sagas k).sagaFor (s.toEvent message) = .ok (factory, sagaId, sagaOrigin) →
      Effect sagas s (.handle h k i) (s.setCall h { saga := k, event := i, sagaOrigin })
  | enqueue {h : ℕ} {call : SagaHandling K} {type : String} {aggregateId : Option I} {payload : V} :
      s.calls h = some call →
      Effect sagas s (.enqueue h type aggregateId payload)
        (s.enqueue h call type aggregateId payload)
  | handled {h : ℕ} {call : SagaHandling K} : s.calls h = some call →
      Effect sagas s (.handled h) (s.setCall h { call with handled := true })
  | send {h c : ℕ} {call : SagaHandling K} {commands : List ℕ} {event command : Message K I V} :
      s.calls h = some call → call.commands = c :: commands →
      s.messages[call.event]? = some event → s.messages[c]? = some command →
      Effect sagas s (.send h)
        ((s.attach (sagas call.saga).sagaDescriptor call.sagaOrigin event c command).setCall h
          { call with commands })
  | emit {c : ℕ} {command : Message K I V} {aggregateId : I} {aggregateVersion : ℕ} {type : String}
      {payload : V} : s.messages[c]? = some command → command.sent = true →
      Effect sagas s (.emit c aggregateId aggregateVersion type payload)
        (s.makeEvent c command aggregateId aggregateVersion type payload)

theorem step_cases {a : Action K I V} (h : step sagas s a = some s') : Effect sagas s a s' := by
  cases a with
  | received message =>
    obtain rfl := Option.some.inj h
    exact .received message
  | identified i id =>
    rcases hm : s.messages[i]? with _ | message
    · simp [step, hm] at h
    obtain ⟨cause, id', type, aggregateId, aggregateVersion, sagaOrigins, payload, context⟩ := message
    by_cases hid : id'.getD "" = ""
    · cases cause with
      | enqueued => simp [step, hm] at h
      | received | emitted =>
        obtain rfl : _ = s' := by simpa [step, hm, hid] using h
        exact .identified hm (by simp) hid
    · obtain rfl : s = s' := by
        cases cause with
        | enqueued => simp [step, hm] at h
        | received | emitted => simpa [step, hm, hid] using h
      exact .refused
  | handle h' k i =>
    rcases hc : s.calls h' with _ | call
    · rcases hm : s.messages[i]? with _ | message
      · simp [step, hc, hm] at h
      rcases hs : (sagas k).sagaFor (s.toEvent message) with error | ⟨factory, sagaId, sagaOrigin⟩
      · obtain rfl : s = s' := by simpa [step, hc, hm, hs] using h
        exact .refused
      · obtain rfl : _ = s' := by simpa [step, hc, hm, hs] using h
        exact .handle hc hm hs
    · simp [step, hc] at h
  | enqueue h' type aggregateId payload =>
    rcases hc : s.calls h' with _ | call
    · simp [step, hc] at h
    by_cases hh : call.handled = true
    · simp [step, hc, hh] at h
    by_cases ht : type = ""
    · obtain rfl : s = s' := by simpa [step, hc, hh, ht] using h
      exact .refused
    · obtain rfl : _ = s' := by simpa [step, hc, hh, ht] using h
      exact .enqueue hc
  | handled h' =>
    rcases hc : s.calls h' with _ | call
    · simp [step, hc] at h
    · obtain rfl : _ = s' := by simpa [step, hc] using h
      exact .handled hc
  | send h' =>
    rcases hc : s.calls h' with _ | ⟨k, e, sagaOrigin, commands, handled⟩
    · simp [step, hc] at h
    cases handled with
    | false => simp [step, hc] at h
    | true =>
      rcases commands with _ | ⟨c, commands⟩
      · simp [step, hc] at h
      rcases he : s.messages[e]? with _ | event
      · simp [step, hc, he] at h
      rcases hm : s.messages[c]? with _ | command
      · simp [step, hc, he, hm] at h
      obtain rfl : _ = s' := by simpa [step, hc, he, hm] using h
      exact .send hc rfl he hm
  | emit c aggregateId aggregateVersion type payload =>
    rcases hm : s.messages[c]? with _ | command
    · simp [step, hm] at h
    by_cases hs : command.sent = true
    · by_cases ht : type = ""
      · obtain rfl : s = s' := by simpa [step, hm, hs, ht] using h
        exact .refused
      · obtain rfl : _ = s' := by simpa [step, hm, hs, ht] using h
        exact .emit hm hs
    · simp [step, hm, hs] at h

/-! ## What a step leaves of what there is -/

/-- What a step leaves of a message: of one with an id, everything. -/
structure Becomes (message message' : Message K I V) : Prop where
  cause : message'.cause = message.cause
  sagaOrigins : (∃ k e, message.cause = .enqueued k e ∧ message.sagaOrigins = none)
    ∨ message'.sagaOrigins = message.sagaOrigins
  same : message.id.getD "" ≠ "" → message' = message

theorem Becomes.refl (message : Message K I V) : Becomes message message :=
  ⟨rfl, .inr rfl, fun _ => rfl⟩

theorem Becomes.sent (h : Becomes message message') (hs : message.sent = true) :
    message'.sent = true ∧ message'.sagaOrigins = message.sagaOrigins := by
  have hso : message'.sagaOrigins = message.sagaOrigins := by
    rcases h.sagaOrigins with ⟨k, e, hc, hnone⟩ | hso
    · simp [Message.sent, hc, hnone] at hs
    · exact hso
  unfold Message.sent at hs ⊢
  rw [h.cause, hso]
  exact ⟨hs, rfl⟩

structure Grows (s s' : Messages K I V) : Prop where
  messages : ∀ (i : ℕ) (message : Message K I V), s.messages[i]? = some message →
    ∃ message', s'.messages[i]? = some message' ∧ Becomes message message'
  sagaOrigins : s.sagaOrigins <+: s'.sagaOrigins

theorem Grows.of_append {messages : List (Message K I V)} (hm : s'.messages = s.messages ++ messages)
    (hs : s.sagaOrigins <+: s'.sagaOrigins) : Grows s s' where
  messages i message hi := by
    have hlt := (List.getElem?_eq_some_iff.1 hi).1
    exact ⟨message, by rw [hm, List.getElem?_append_left hlt, hi], .refl message⟩
  sagaOrigins := hs

theorem Grows.of_set {i : ℕ} (hi : s.messages[i]? = some message)
    (hm : s'.messages = s.messages.set i message') (hb : Becomes message message')
    (hs : s.sagaOrigins <+: s'.sagaOrigins) : Grows s s' where
  messages j message₁ hj := by
    rw [hm]
    by_cases hij : i = j
    · subst hij
      obtain rfl : message = message₁ := Option.some.inj (hi.symm.trans hj)
      exact ⟨message', List.getElem?_set_self (List.getElem?_eq_some_iff.1 hi).1, hb⟩
    · exact ⟨message₁, by rw [List.getElem?_set_ne hij, hj], .refl message₁⟩
  sagaOrigins := hs

/-- The `sagaOrigins` of the message are an object there is. -/
def Refers (s : Messages K I V) (message : Message K I V) : Prop :=
  ∀ r ∈ message.sagaOrigins, r < s.sagaOrigins.length

theorem Grows.refers (hg : Grows s s') (h : Refers s message) : Refers s' message :=
  fun r hr => Nat.lt_of_lt_of_le (h r hr) hg.sagaOrigins.length_le

theorem Grows.sagaOriginsOf (hg : Grows s s') (h : Refers s message) :
    s'.sagaOriginsOf message = s.sagaOriginsOf message := by
  unfold Messages.sagaOriginsOf
  rcases hr : message.sagaOrigins with _ | r
  · rfl
  · obtain ⟨l, hl⟩ := hg.sagaOrigins
    rw [Option.bind_some, Option.bind_some, ← hl, List.getElem?_append_left (h r hr)]

theorem Grows.toEvent (hg : Grows s s') (h : Refers s message) :
    s'.toEvent message = s.toEvent message := by
  unfold Messages.toEvent
  rw [hg.sagaOriginsOf h]

/-! ## What there is -/

/-- The `sagaOrigins` of a message at `i` are those its cause gives it. -/
inductive Sound (sagas : ∀ k, SagaType I V (σ k)) (s : Messages K I V) (i : ℕ)
    (message : Message K I V) : Prop
  | received : message.cause = .received → message.sagaOrigins = none → Sound sagas s i message
  | enqueued {k : K} {e : ℕ} {event : Message K I V} {factory : SagaFactory I V}
      {sagaId sagaOrigin : String} : message.cause = .enqueued k e → e < i → message.id = none →
      s.messages[e]? = some event →
      (sagas k).sagaFor (s.toEvent event) = .ok (factory, sagaId, sagaOrigin) →
      (message.sagaOrigins = none ∨ s.sagaOriginsOf message = some (setProperty
        ((s.sagaOriginsOf event).getD []) (sagas k).sagaDescriptor sagaOrigin)) →
      Sound sagas s i message
  | emitted {c : ℕ} {command : Message K I V} : message.cause = .emitted c → c < i →
      s.messages[c]? = some command → command.sent = true →
      s.sagaOriginsOf message = s.sagaOriginsOf command → Sound sagas s i message

/-- A call has found its saga, and its commands are those it has produced. -/
structure Handles (sagas : ∀ k, SagaType I V (σ k)) (s : Messages K I V)
    (call : SagaHandling K) : Prop where
  found : ∃ event factory sagaId, s.messages[call.event]? = some event
    ∧ (sagas call.saga).sagaFor (s.toEvent event) = .ok (factory, sagaId, call.sagaOrigin)
  commands : ∀ c ∈ call.commands, ∃ command, s.messages[c]? = some command
    ∧ command.cause = .enqueued call.saga call.event

structure Inv (sagas : ∀ k, SagaType I V (σ k)) (s : Messages K I V) : Prop where
  refers : ∀ (i : ℕ) (message : Message K I V), s.messages[i]? = some message → Refers s message
  sound : ∀ (i : ℕ) (message : Message K I V), s.messages[i]? = some message →
    Sound sagas s i message
  handles : ∀ h call, s.calls h = some call → Handles sagas s call

/-- What has an id stays as it is. -/
theorem Inv.event (h : Inv sagas s) (hg : Grows s s') {i : ℕ} (hi : s.messages[i]? = some message)
    (hid : message.id.getD "" ≠ "") :
    s'.messages[i]? = some message ∧ s'.toEvent message = s.toEvent message := by
  obtain ⟨message', hi', hb⟩ := hg.messages i message hi
  exact ⟨hb.same hid ▸ hi', hg.toEvent (h.refers i message hi)⟩

theorem Inv.sound_grows (h : Inv sagas s) (hg : Grows s s') {i : ℕ}
    (hi : s.messages[i]? = some message) : Sound sagas s' i message := by
  have hso := hg.sagaOriginsOf (h.refers i message hi)
  cases h.sound i message hi with
  | received hc hnone => exact .received hc hnone
  | @enqueued k e event factory sagaId sagaOrigin hc hlt hid he hf hs =>
    obtain ⟨he', hev⟩ := h.event hg he (SagaType.sagaFor_ok hf).1
    rw [← hev] at hf
    rw [← hso, ← hg.sagaOriginsOf (h.refers e event he)] at hs
    exact .enqueued hc hlt hid he' hf hs
  | @emitted c command hc hlt hcm hsent hs =>
    obtain ⟨command', hcm', hb⟩ := hg.messages c command hcm
    obtain ⟨hsent', hso'⟩ := hb.sent hsent
    refine .emitted hc hlt hcm' hsent' ?_
    rw [hso, hs, ← hg.sagaOriginsOf (h.refers c command hcm), Messages.sagaOriginsOf,
      Messages.sagaOriginsOf, hso']

theorem Inv.handles_grows (h : Inv sagas s) (hg : Grows s s') {call : SagaHandling K}
    (hc : Handles sagas s call) : Handles sagas s' call := by
  obtain ⟨event, factory, sagaId, he, hf⟩ := hc.found
  obtain ⟨he', hev⟩ := h.event hg he (SagaType.sagaFor_ok hf).1
  refine ⟨⟨event, factory, sagaId, he', by rw [hev, hf]⟩, fun c hmem => ?_⟩
  obtain ⟨command, hcm, hcause⟩ := hc.commands c hmem
  obtain ⟨command', hcm', hb⟩ := hg.messages c command hcm
  exact ⟨command', hcm', hb.cause.trans hcause⟩

/-- What a step has to show of a message it makes or writes to, and of the call it is one of. -/
theorem Inv.step (h : Inv sagas s) (hg : Grows s s')
    (hm : ∀ (i : ℕ) (message : Message K I V), s'.messages[i]? = some message →
      s.messages[i]? = some message ∨ Refers s' message ∧ Sound sagas s' i message)
    (hc : ∀ c call, s'.calls c = some call → s.calls c = some call ∨ Handles sagas s' call) :
    Inv sagas s' where
  refers i message hi := by
    rcases hm i message hi with hi | ⟨hr, -⟩
    · exact hg.refers (h.refers i message hi)
    · exact hr
  sound i message hi := by
    rcases hm i message hi with hi | ⟨-, hs⟩
    · exact h.sound_grows hg hi
    · exact hs
  handles c call hcall := by
    rcases hc c call hcall with hcall | hh
    · exact h.handles_grows hg (h.handles c call hcall)
    · exact hh

/-! ## The steps -/

theorem mem_concat {l : List (Message K I V)} {i : ℕ}
    (h : (l ++ [message'])[i]? = some message) :
    l[i]? = some message ∨ i = l.length ∧ message = message' := by
  rcases Nat.lt_trichotomy i l.length with hi | rfl | hi
  · rw [List.getElem?_append_left hi] at h
    exact .inl h
  · rw [List.getElem?_concat_length] at h
    exact .inr ⟨rfl, (Option.some.inj h).symm⟩
  · rw [List.getElem?_eq_none (by rw [List.length_append, List.length_singleton]; omega)] at h
    cases h

theorem mem_set {l : List (Message K I V)} {i j : ℕ}
    (h : (l.set j message')[i]? = some message) :
    l[i]? = some message ∨ i = j ∧ message = message' := by
  rw [List.getElem?_set] at h
  split_ifs at h with hij hlt
  · exact .inr ⟨hij.symm, (Option.some.inj h).symm⟩
  · exact .inl h

theorem grows_calls (calls : ℕ → Option (SagaHandling K)) : Grows s { s with calls } :=
  .of_append (List.append_nil _).symm (List.prefix_refl _)

section

variable {c : ℕ} {event command : Message K I V} {sagaDescriptor sagaOrigin type : String}
  {aggregateId : I} {aggregateVersion : ℕ} {payload : V}

theorem attach_of_none (h : command.sagaOrigins = none) :
    s.attach sagaDescriptor sagaOrigin event c command = { s with
      messages := s.messages.set c { command with
        context := command.context.orElse fun _ => event.context
        sagaOrigins := some s.sagaOrigins.length }
      sagaOrigins := s.sagaOrigins ++
        [setProperty ((s.sagaOriginsOf event).getD []) sagaDescriptor sagaOrigin] } := by
  simp only [attach, h]

theorem attach_of_some {r : ℕ} (h : command.sagaOrigins = some r) :
    s.attach sagaDescriptor sagaOrigin event c command = { s with
      messages := s.messages.set c
        { command with context := command.context.orElse fun _ => event.context } } := by
  simp only [attach, h]

theorem makeEvent_of_none (h : s.sagaOriginsOf command = none) :
    s.makeEvent c command aggregateId aggregateVersion type payload = { s with
      messages := s.messages ++ [{
        cause := .emitted c
        type, payload
        aggregateId := some aggregateId
        aggregateVersion := some aggregateVersion
        context := command.context }] } := by
  simp only [makeEvent, h]

theorem makeEvent_of_some {sagaOrigins : List (String × String)}
    (h : s.sagaOriginsOf command = some sagaOrigins) :
    s.makeEvent c command aggregateId aggregateVersion type payload = { s with
      messages := s.messages ++ [{
        cause := .emitted c
        type, payload
        aggregateId := some aggregateId
        aggregateVersion := some aggregateVersion
        context := command.context
        sagaOrigins := some s.sagaOrigins.length }]
      sagaOrigins := s.sagaOrigins ++ [sagaOrigins] } := by
  simp only [makeEvent, h]

theorem grows_attach {k : K} {e : ℕ} (hc : s.messages[c]? = some command)
    (hcause : command.cause = .enqueued k e) (hid : command.id = none) :
    Grows s (s.attach sagaDescriptor sagaOrigin event c command) := by
  have hsame : command.id.getD "" = "" := by rw [hid]; rfl
  rcases hso : command.sagaOrigins with _ | r
  · rw [attach_of_none hso]
    exact .of_set hc rfl ⟨rfl, .inl ⟨k, e, hcause, hso⟩, fun hne => absurd hsame hne⟩
      (List.prefix_append _ _)
  · rw [attach_of_some hso]
    exact .of_set hc rfl ⟨rfl, .inr rfl, fun hne => absurd hsame hne⟩ (List.prefix_refl _)

theorem grows_makeEvent :
    Grows s (s.makeEvent c command aggregateId aggregateVersion type payload) := by
  rcases hso : s.sagaOriginsOf command with _ | sagaOrigins
  · rw [makeEvent_of_none hso]
    exact .of_append rfl (List.prefix_refl _)
  · rw [makeEvent_of_some hso]
    exact .of_append rfl (List.prefix_append _ _)

end

theorem Inv.command (h : Inv sagas s) {i : ℕ} {k : K} {e : ℕ} (hi : s.messages[i]? = some message)
    (hc : message.cause = .enqueued k e) : message.id = none := by
  cases h.sound i message hi with
  | received hc' => simp [hc] at hc'
  | enqueued _ _ hid => exact hid
  | emitted hc' => simp [hc] at hc'

theorem grows_step (h : Inv sagas s) {a : Action K I V} (hst : step sagas s a = some s') :
    Grows s s' := by
  cases step_cases hst with
  | received | enqueue => exact .of_append rfl (List.prefix_refl _)
  | refused | handle | handled => exact grows_calls _
  | identified hi hc hid =>
    exact .of_set hi rfl ⟨rfl, .inr rfl, fun hne => absurd hid hne⟩ (List.prefix_refl _)
  | @send h' c call commands event command hcall hcs he hc =>
    obtain ⟨command', hc', hcause⟩ := (h.handles h' call hcall).commands c (by simp [hcs])
    obtain rfl : command = command' := Option.some.inj (hc.symm.trans hc')
    have hg : Grows s (s.attach (sagas call.saga).sagaDescriptor call.sagaOrigin event c command) :=
      grows_attach hc hcause (h.command hc hcause)
    exact ⟨hg.messages, hg.sagaOrigins⟩
  | emit hc hsent => exact grows_makeEvent

theorem Inv.setCall (h : Inv sagas s) {call : SagaHandling K} (hh : Handles sagas s call) (c : ℕ) :
    Inv sagas (s.setCall c call) := by
  have hg : Grows s (s.setCall c call) := grows_calls _
  refine h.step hg (fun _ _ hi => .inl hi) fun c' call' hc' => ?_
  by_cases hcc : c' = c
  · subst hcc
    obtain rfl : call = call' := by simpa [Messages.setCall] using hc'
    exact .inr (h.handles_grows hg hh)
  · exact .inl (by simpa [Messages.setCall, hcc] using hc')

theorem Inv.enqueue (h : Inv sagas s) {c : ℕ} {call : SagaHandling K} (hh : Handles sagas s call)
    (type : String) (aggregateId : Option I) (payload : V) :
    Inv sagas (s.enqueue c call type aggregateId payload) := by
  set t : Messages K I V := { s with messages := s.messages ++
    [{ cause := .enqueued call.saga call.event, type, aggregateId, payload }] } with ht
  have hg : Grows s t := .of_append rfl (List.prefix_refl _)
  have hh' := h.handles_grows hg hh
  obtain ⟨event, factory, sagaId, he, hf⟩ := hh'.found
  have hlt : call.event < s.messages.length := by
    obtain ⟨_, _, _, he, -⟩ := hh.found
    exact (List.getElem?_eq_some_iff.1 he).1
  have hi : Inv sagas t := by
    refine h.step hg (fun i message hi => ?_) fun _ _ hc => .inl hc
    rcases mem_concat hi with hi | ⟨rfl, rfl⟩
    · exact .inl hi
    · exact .inr ⟨by simp [Refers], .enqueued rfl hlt rfl he hf (.inl rfl)⟩
  have hcall : Handles sagas t { call with commands := call.commands ++ [s.messages.length] } := by
    refine ⟨hh'.found, fun c' hc' => ?_⟩
    rcases List.mem_append.1 hc' with hc' | hc'
    · exact hh'.commands c' hc'
    · obtain rfl := List.mem_singleton.1 hc'
      exact ⟨_, List.getElem?_concat_length, rfl⟩
  exact hi.setCall hcall c

/-- What a call attaches to its command. -/
theorem Inv.attach (h : Inv sagas s) {call : SagaHandling K} (hh : Handles sagas s call) {c : ℕ}
    {event command : Message K I V} (hmem : c ∈ call.commands)
    (he : s.messages[call.event]? = some event) (hc : s.messages[c]? = some command) :
    Inv sagas
      (s.attach (sagas call.saga).sagaDescriptor call.sagaOrigin event c command) := by
  obtain ⟨command', hc', hcause⟩ := hh.commands c hmem
  obtain rfl : command = command' := Option.some.inj (hc.symm.trans hc')
  obtain ⟨event', factory, sagaId, he', hf⟩ := hh.found
  obtain rfl : event = event' := Option.some.inj (he.symm.trans he')
  have hg : Grows s (s.attach (sagas call.saga).sagaDescriptor call.sagaOrigin event c command) :=
    grows_attach hc hcause (h.command hc hcause)
  have hsound := h.sound_grows hg hc
  obtain ⟨he', hev⟩ := h.event hg he (SagaType.sagaFor_ok hf).1
  rw [← hev] at hf
  rcases hso : command.sagaOrigins with _ | r
  · rw [attach_of_none hso] at hg hsound he' hf ⊢
    refine h.step hg (fun i message hi => ?_) fun _ _ hc => .inl hc
    rcases mem_set hi with hi | ⟨rfl, rfl⟩
    · exact .inl hi
    · refine .inr ⟨by simp [Refers], ?_⟩
      cases hsound with
      | received hcause' => simp [hcause] at hcause'
      | emitted hcause' => simp [hcause] at hcause'
      | enqueued hcause' hlt hid =>
        obtain ⟨rfl, rfl⟩ : call.saga = _ ∧ call.event = _ := by simpa [hcause] using hcause'
        refine .enqueued hcause hlt hid he' hf (.inr ?_)
        rw [hg.sagaOriginsOf (h.refers _ event he)]
        simp [sagaOriginsOf]
  · rw [attach_of_some hso] at hg hsound ⊢
    refine h.step hg (fun i message hi => ?_) fun _ _ hc => .inl hc
    rcases mem_set hi with hi | ⟨rfl, rfl⟩
    · exact .inl hi
    · refine .inr ⟨hg.refers (h.refers _ command hc), ?_⟩
      cases hsound with
      | received hcause' => simp [hcause] at hcause'
      | emitted hcause' => simp [hcause] at hcause'
      | enqueued hcause' hlt hid he hf hs => exact .enqueued hcause' hlt hid he hf hs

theorem Inv.makeEvent (h : Inv sagas s) {c : ℕ} {command : Message K I V} {aggregateId : I}
    {aggregateVersion : ℕ} {type : String} {payload : V} (hc : s.messages[c]? = some command)
    (hsent : command.sent = true) :
    Inv sagas (s.makeEvent c command aggregateId aggregateVersion type payload) := by
  have hlt := (List.getElem?_eq_some_iff.1 hc).1
  have hg : Grows s (s.makeEvent c command aggregateId aggregateVersion type payload) :=
    grows_makeEvent
  have hso := hg.sagaOriginsOf (h.refers c command hc)
  rcases hl : s.sagaOriginsOf command with _ | sagaOrigins
  · rw [makeEvent_of_none hl] at hg hso ⊢
    refine h.step hg (fun i message hi => ?_) fun _ _ hc => .inl hc
    rcases mem_concat hi with hi | ⟨rfl, rfl⟩
    · exact .inl hi
    · refine .inr ⟨by simp [Refers], .emitted rfl hlt ?_ hsent (hso.trans hl).symm⟩
      exact (List.getElem?_append_left hlt).trans hc
  · rw [makeEvent_of_some hl] at hg hso ⊢
    refine h.step hg (fun i message hi => ?_) fun _ _ hc => .inl hc
    rcases mem_concat hi with hi | ⟨rfl, rfl⟩
    · exact .inl hi
    · refine .inr ⟨by simp [Refers], .emitted rfl hlt ?_ hsent ?_⟩
      · exact (List.getElem?_append_left hlt).trans hc
      · rw [hso, hl]
        simp [sagaOriginsOf]

theorem inv_init : Inv sagas ({} : Messages K I V) where
  refers i message hi := by simp at hi
  sound i message hi := by simp at hi
  handles c call hc := by simp at hc

theorem inv_step (h : Inv sagas s) {a : Action K I V} (hst : step sagas s a = some s') :
    Inv sagas s' := by
  have hg := grows_step h hst
  cases step_cases hst with
  | received message' =>
    refine h.step hg (fun i message hi => ?_) fun _ _ hc => .inl hc
    rcases mem_concat hi with hi | ⟨-, rfl⟩
    · exact .inl hi
    · exact .inr ⟨by simp [Refers], .received rfl rfl⟩
  | refused => exact h
  | @identified j id message' hj hc hid =>
    refine h.step hg (fun i message hi => ?_) fun _ _ hc => .inl hc
    rcases mem_set hi with hi | ⟨rfl, rfl⟩
    · exact .inl hi
    · refine .inr ⟨hg.refers (h.refers i message' hj), ?_⟩
      cases h.sound_grows hg hj with
      | received hc' hnone => exact .received hc' hnone
      | enqueued hc' => exact absurd hc' (hc _ _)
      | emitted hc' hlt hcm hsent hso => exact .emitted hc' hlt hcm hsent hso
  | handle hcall hi hf => exact h.setCall ⟨⟨_, _, _, hi, hf⟩, by simp⟩ _
  | @enqueue c call type aggregateId payload hcall =>
    exact h.enqueue (h.handles c call hcall) type aggregateId payload
  | @handled c call hcall =>
    have hh := h.handles c call hcall
    have hh' : Handles sagas s { call with handled := true } := ⟨hh.found, hh.commands⟩
    exact h.setCall hh' c
  | @send c c' call commands event command hcall hcs he hc =>
    have hh := h.handles c call hcall
    have hga : Grows s
        (s.attach (sagas call.saga).sagaDescriptor call.sagaOrigin event c' command) :=
      ⟨hg.messages, hg.sagaOrigins⟩
    have hh' := h.handles_grows hga hh
    have hcall' : Handles sagas _ { call with commands } :=
      ⟨hh'.found, fun x hx => hh'.commands x (by rw [hcs]; exact List.mem_cons_of_mem _ hx)⟩
    exact (h.attach hh (by simp [hcs]) he hc).setCall hcall' c
  | emit hc hsent => exact h.makeEvent hc hsent

theorem reach_inv (h : (machine sagas).Reach s) : Inv sagas s := by
  refine Machine.ReachIf.invariant (P := Inv sagas) (fun t h0 => ?_)
    (fun _ _ _ hi _ hst => inv_step hi hst) h
  obtain rfl : t = {} := h0
  exact inv_init

/-! ## Chains -/

/-- The cause of the message at a place. -/
def cause (s : Messages K I V) (i : ℕ) : Option (Cause K) := s.messages[i]?.map (·.cause)

/-- `event.sagaOrigins?.[sagaDescriptor]` of the message at a place. -/
def sagaOrigin (s : Messages K I V) (i : ℕ) (sagaDescriptor : String) : Option String :=
  (s.event i).bind (·.sagaOrigin sagaDescriptor)

/-- A message led to one that is emitted for it or enqueued on it. -/
def Led (s : Messages K I V) (i j : ℕ) : Prop :=
  s.cause j = some (.emitted i) ∨ ∃ k, s.cause j = some (.enqueued k i)

/-- The handler of the saga, called with the event at `m`, led to the event at `e`. -/
def Triggers (s : Messages K I V) (k : K) (m e : ℕ) : Prop :=
  ∃ c, s.cause c = some (.enqueued k m) ∧ s.cause e = some (.emitted c)

/-- A saga of the descriptor was started at an event with the id, and led to the message at `i`. -/
def Started (sagas : ∀ k, SagaType I V (σ k)) (s : Messages K I V) (sagaDescriptor id : String)
    (i : ℕ) : Prop :=
  ∃ k m event c, (sagas k).sagaDescriptor = sagaDescriptor ∧ s.event m = some event
    ∧ event.id = some id ∧ (sagas k).sagaOrigin event = .ok (true, id)
    ∧ s.cause c = some (.enqueued k m) ∧ Relation.ReflTransGen s.Led c i

theorem Started.led {sagaDescriptor id : String} {i j : ℕ} (h : Started sagas s sagaDescriptor id i)
    (hl : s.Led i j) : Started sagas s sagaDescriptor id j := by
  obtain ⟨k, m, event, c, hd, hm, hid, ho, hc, hi⟩ := h
  exact ⟨k, m, event, c, hd, hm, hid, ho, hc, hi.tail hl⟩

theorem sagaOrigin_eq {i : ℕ} (hi : s.messages[i]? = some message) (sagaDescriptor : String) :
    s.sagaOrigin i sagaDescriptor
      = (s.sagaOriginsOf message).bind (·.lookup sagaDescriptor) := by
  unfold sagaOrigin Messages.event
  rw [hi]
  rfl

theorem cause_eq {i : ℕ} {c : Cause K} (hi : s.messages[i]? = some message)
    (hc : message.cause = c) : s.cause i = some c := by
  unfold cause
  rw [hi, Option.map_some, hc]

/-- What a message has of a saga is the id of the event it was started at. -/
theorem Inv.started (h : Inv sagas s) : ∀ (i : ℕ) {sagaDescriptor id : String},
    s.sagaOrigin i sagaDescriptor = some id →
      id ≠ "" ∧ Started sagas s sagaDescriptor id i := by
  intro i
  induction i using Nat.strongRecOn with
  | _ i ih =>
    intro sagaDescriptor id hso
    rcases hi : s.messages[i]? with _ | message
    · simp [sagaOrigin, Messages.event, hi] at hso
    rw [sagaOrigin_eq hi] at hso
    cases h.sound i message hi with
    | received hc hnone => simp [sagaOriginsOf, hnone] at hso
    | @enqueued k e event factory sagaId origin hc hlt hid he hf hs =>
      have hled : s.Led e i := .inr ⟨k, cause_eq hi hc⟩
      rcases hs with hnone | hs
      · simp [sagaOriginsOf, hnone] at hso
      rw [hs, Option.bind_some, lookup_setProperty] at hso
      obtain ⟨hne, hm, isStarterEvent, ho, -⟩ := SagaType.sagaFor_eq_ok hf
      have hevent := SagaType.sagaOrigin_ok ho
      split_ifs at hso with hd
      · obtain rfl := Option.some.inj hso
        cases isStarterEvent with
        | true =>
          refine ⟨(makeSagaId_ok hm).2.1, k, e, s.toEvent event, i, hd.symm, ?_, hevent, ho,
            cause_eq hi hc, .refl⟩
          rw [Messages.event, he]
          rfl
        | false =>
          have hso' : s.sagaOrigin e sagaDescriptor = some origin := by
            rw [sagaOrigin_eq he, hd]
            exact hevent
          obtain ⟨hid, hst⟩ := ih e hlt hso'
          exact ⟨hid, hst.led hled⟩
      · have hso' : s.sagaOrigin e sagaDescriptor = some id := by
          rw [sagaOrigin_eq he]
          rcases hl : s.sagaOriginsOf event with _ | l
          · simp [hl] at hso
          · simpa [hl] using hso
        obtain ⟨hid, hst⟩ := ih e hlt hso'
        exact ⟨hid, hst.led hled⟩
    | @emitted c command hc hlt hcm hsent hs =>
      rw [hs, ← sagaOrigin_eq hcm] at hso
      obtain ⟨hid, hst⟩ := ih c hlt hso
      exact ⟨hid, hst.led (.inl (cause_eq hi hc))⟩

theorem of_cause {i : ℕ} {c : Cause K} (h : s.cause i = some c) :
    ∃ message, s.messages[i]? = some message ∧ message.cause = c := by
  unfold cause at h
  exact Option.map_eq_some_iff.1 h

/-- What the handler of a saga makes of the origins of its event. -/
theorem Inv.triggers (h : Inv sagas s) {k : K} {m e : ℕ} (ht : s.Triggers k m e)
    (sagaDescriptor : String) :
    ∃ origin, s.sagaOrigin e sagaDescriptor = (if sagaDescriptor = (sagas k).sagaDescriptor
        then some origin else s.sagaOrigin m sagaDescriptor)
      ∧ ∀ id, s.sagaOrigin m (sagas k).sagaDescriptor = some id → id = origin := by
  obtain ⟨c, hcm, hce⟩ := ht
  obtain ⟨command, hc, hcause⟩ := of_cause hcm
  obtain ⟨event, he, hcause'⟩ := of_cause hce
  rcases h.sound e event he with ⟨h', -⟩ | ⟨h', -⟩ | @⟨c', command', h', -, hc', hsent, hs⟩
  · simp [hcause'] at h'
  · simp [hcause'] at h'
  obtain rfl : c = c' := by simpa [hcause'] using h'
  obtain rfl : command = command' := Option.some.inj (hc.symm.trans hc')
  rcases h.sound c command hc with ⟨h', -⟩ | @⟨k', m', event', _, _, origin, h', -, -, hm, hf, hso⟩ |
    ⟨h', -⟩
  · simp [hcause] at h'
  · obtain ⟨rfl, rfl⟩ : k = k' ∧ m = m' := by simpa [hcause] using h'
    rcases hso with hnone | hso
    · simp [Message.sent, hcause, hnone] at hsent
    refine ⟨origin, ?_, fun id hid => ?_⟩
    · rw [sagaOrigin_eq he, hs, hso, Option.bind_some, lookup_setProperty]
      split_ifs with hd
      · rfl
      · rw [sagaOrigin_eq hm]
        rcases s.sagaOriginsOf event' with _ | l <;> rfl
    · obtain ⟨-, -, isStarterEvent, ho, -⟩ := SagaType.sagaFor_eq_ok hf
      have hne := (h.started m hid).1
      rw [sagaOrigin_eq hm] at hid
      exact (SagaType.sagaOrigin_of_some ho hid hne).symm
  · simp [hcause] at h'

theorem event_step (h : Inv sagas s) {a : Action K I V} (hst : step sagas s a = some s') {i : ℕ}
    {event : Event I V} (he : s.event i = some event) (hid : event.id.getD "" ≠ "") :
    s'.event i = some event := by
  obtain ⟨message, hi, rfl⟩ := Option.map_eq_some_iff.1 he
  obtain ⟨hi', hev⟩ := h.event (grows_step h hst) hi hid
  rw [Messages.event, hi', Option.map_some, hev]

theorem event_run (h : Inv sagas s) {i : ℕ} {event : Event I V} (he : s.event i = some event)
    (hid : event.id.getD "" ≠ "") : ∀ {l : List (Action K I V)},
    (machine sagas).run s l = some s' → s'.event i = some event := by
  intro l
  induction l generalizing s with
  | nil =>
    intro hr
    obtain rfl : s = s' := by simpa using hr
    exact he
  | cons a l ih =>
    intro hr
    obtain ⟨t, hst, hr⟩ := Option.bind_eq_some_iff.1 hr
    exact ih (inv_step h hst) (event_step h hst he hid) hr

/-- An event that a saga's handler leads to has the origins of the event it was called with, and one
more at most, that of the saga; each origin is the id of the event that led to it at which the saga
was started; and an event that has an id stays as it is. -/
theorem sagaOrigins_propagate (h : (machine sagas).Reach s) :
    (∀ k m e, s.Triggers k m e → ∀ sagaDescriptor id,
      (s.sagaOrigin m sagaDescriptor = some id → s.sagaOrigin e sagaDescriptor = some id)
      ∧ (s.sagaOrigin e sagaDescriptor = some id →
        s.sagaOrigin m sagaDescriptor = some id ∨ sagaDescriptor = (sagas k).sagaDescriptor))
    ∧ (∀ e sagaDescriptor id, s.sagaOrigin e sagaDescriptor = some id →
      Started sagas s sagaDescriptor id e)
    ∧ ∀ m event, s.event m = some event → event.id.getD "" ≠ "" →
      ∀ l s', (machine sagas).run s l = some s' → s'.event m = some event := by
  have hi := reach_inv h
  refine ⟨fun k m e ht sagaDescriptor id => ?_, fun e _ _ hso => (hi.started e hso).2,
    fun m event he hid l s' hr => event_run hi he hid hr⟩
  obtain ⟨origin, heq, hsame⟩ := hi.triggers ht sagaDescriptor
  by_cases hd : sagaDescriptor = (sagas k).sagaDescriptor
  · rw [if_pos hd] at heq
    refine ⟨fun hm => ?_, fun _ => .inr hd⟩
    rw [heq, hsame id (hd ▸ hm)]
  · rw [if_neg hd] at heq
    exact ⟨fun hm => heq.trans hm, fun he => .inl (heq.symm.trans he)⟩

/-- A saga without state, which any event starts that has no origin of it. -/
def greeting (sagaDescriptor : String) : SagaType String Unit Unit where
  sagaDescriptor
  handles := ["signedUp", "greeted"]
  sagaFactory _ := ()
  mutate _ _ := ()

/-- One saga starts with an event, and another with the event that one led to. -/
def greetings : List (Action Bool String Unit) := [
  .received { cause := .received, type := "signUp", payload := () },
  .emit 0 "user" 0 "signedUp" (), .identified 1 "e1",
  .handle 0 true 1, .enqueue 0 "greet" (some "user") (), .handled 0, .send 0,
  .emit 2 "user" 1 "greeted" (), .identified 3 "e2",
  .handle 1 false 3, .enqueue 1 "remind" (some "user") (), .handled 1, .send 1,
  .emit 4 "user" 2 "reminded" ()]

theorem sagaOrigins_propagate_greetings : ∃ s,
    (machine fun k : Bool => greeting (if k then "Greeting" else "Reminder")).run {} greetings
      = some s
    ∧ s.sagaOrigin 5 "Greeting" = some "e1"
    ∧ Started (fun k : Bool => greeting (if k then "Greeting" else "Reminder")) s "Reminder" "e2"
      5 := by
  obtain ⟨s, hs, h3, h4, h5, hg, hr⟩ : ∃ s,
      (machine fun k : Bool => greeting (if k then "Greeting" else "Reminder")).run {} greetings
        = some s
      ∧ s.cause 3 = some (.emitted 2) ∧ s.cause 4 = some (.enqueued false 3)
      ∧ s.cause 5 = some (.emitted 4) ∧ s.sagaOrigin 3 "Greeting" = some "e1"
      ∧ s.sagaOrigin 5 "Reminder" = some "e2" := ⟨_, rfl, rfl, rfl, rfl, rfl, rfl⟩
  obtain ⟨ht, hst, -⟩ := sagaOrigins_propagate (Machine.reach_of_run rfl hs)
  exact ⟨s, hs, (ht false 3 5 ⟨4, h4, h5⟩ "Greeting" "e1").1 hg, hst 5 "Reminder" "e2" hr⟩

/-! ## The same by value -/

/-- What `attach` does to a command is `attachContext`. -/
theorem attach_toCommand {c : ℕ} {event command : Message K I V} {k : K} {sagaOrigin : String}
    (hc : s.messages[c]? = some command) (hr : Refers s command) :
    ∃ command', (s.attach (sagas k).sagaDescriptor sagaOrigin event c command).messages[c]?
        = some command'
      ∧ (s.attach (sagas k).sagaDescriptor sagaOrigin event c command).toCommand command'
        = (sagas k).attachContext (s.toEvent event) sagaOrigin (s.toCommand command) := by
  have hlt := (List.getElem?_eq_some_iff.1 hc).1
  rcases hso : command.sagaOrigins with _ | r
  · rw [attach_of_none hso]
    refine ⟨_, List.getElem?_set_self hlt, ?_⟩
    simp [toCommand, toEvent, SagaType.attachContext, sagaOriginsOf, hso]
  · rw [attach_of_some hso]
    refine ⟨_, List.getElem?_set_self hlt, ?_⟩
    have hr' := hr r hso
    simp [toCommand, toEvent, SagaType.attachContext, sagaOriginsOf, hso, hr']

/-- The event `makeEvent` makes is that of an aggregate with the command in hand. -/
theorem makeEvent_toEvent {c : ℕ} {command : Message K I V} {aggregateId : I}
    {aggregateVersion : ℕ} {type : String} {payload : V} :
    ∃ event, (s.makeEvent c command aggregateId aggregateVersion type payload).messages[
        s.messages.length]? = some event
      ∧ (s.makeEvent c command aggregateId aggregateVersion type payload).toEvent event
        = Aggregate.makeEvent (σ := Unit) {
          id := aggregateId
          version := aggregateVersion
          state := ()
          command := some (s.toCommand command) } type payload := by
  rcases hl : s.sagaOriginsOf command with _ | sagaOrigins
  · rw [makeEvent_of_none hl]
    refine ⟨_, List.getElem?_concat_length, ?_⟩
    simp [toEvent, toCommand, Aggregate.makeEvent, sagaOriginsOf, ← hl]
  · rw [makeEvent_of_some hl]
    refine ⟨_, List.getElem?_concat_length, ?_⟩
    simp [toEvent, toCommand, Aggregate.makeEvent, sagaOriginsOf, ← hl]

end Messages

end NodeCqrs
