import NodeCqrs.AbstractAggregate
import NodeCqrs.Proofs.Aggregate

/-!
# Each command's own events

While a command is handled no other can start, so the events past its offset are those registered
since it started, also by other code, and what `emit` makes is for that command (`Inv`).
-/

namespace NodeCqrs.AbstractAggregate

open History (Explained Since explained_nil explained_concat)

variable {I V σ : Type} {s s' : Sys I V σ} {h post : List (Entry I V)} {e : Entry I V} {c : ℕ}
  {id : I} {a : Aggregate I V σ} {result : Aggregate I V σ × Bool} {command : Command I V}
  {methods : String → Bool}

/-- A `handle` call starts or ends. -/
def Entry.Bounds : Entry I V → Prop
  | .started .. | .returned .. | .failed _ => True
  | .emitted _ | .emittedRaw _ => False

def Entry.event : Entry I V → Option (Event I V)
  | .emitted event | .emittedRaw event => some event
  | .started .. | .returned .. | .failed _ => none

def emitted (h : List (Entry I V)) : List (Event I V) := h.filterMap Entry.event

/-- What the calls have returned, one after the other. -/
def returns (h : List (Entry I V)) : List (Event I V) :=
  h.flatMap fun
    | .returned _ events => events
    | _ => []

/-- The call is the last to have started or ended: it has only these entries after its start. -/
def Handling (h : List (Entry I V)) (c : ℕ) (command : Command I V) (post : List (Entry I V)) :
    Prop :=
  Since Entry.Bounds (fun _ => True) h (.started c command) post

/-- No call has started and not ended. -/
def Idle (h : List (Entry I V)) : Prop := ∀ c command post, ¬Handling h c command post

/-- What a call returns are the events registered between its start and its end, and no other call
has started or ended in between. What `emit` makes is of the aggregate and for the command that is
being handled, if one is. -/
def Ok (id : I) (pre : List (Entry I V)) : Entry I V → Prop
  | .started _ _ => Idle pre
  | .emitted event => event.aggregateId = some id ∧
    ((∃ c command post, Handling pre c command post ∧ event.context = command.context
        ∧ event.sagaOrigins = command.sagaOrigins)
      ∨ Idle pre ∧ event.context = none ∧ event.sagaOrigins = none)
  | .emittedRaw _ => True
  | .returned c events => ∃ command post, Handling pre c command post ∧ events = emitted post
  | .failed c => ∃ command post, Handling pre c command post

/-- The command is handled by the call, whose handler has registered `post` after what was there
at its offset. -/
structure Busy (s : Sys I V σ) (command : Command I V) (c : ℕ) (post : List (Entry I V))
    (before : List (Event I V)) : Prop where
  handling : Handling s.history c command post
  changes : s.aggregate.changes = before ++ emitted post
  returned : (returns s.history).Sublist before
  only : ∀ c' eventsOffset, s.calls[c']? = some (.handler eventsOffset) →
    c' = c ∧ eventsOffset = before.length

structure Inv (id : I) (s : Sys I V σ) : Prop where
  ofId : s.aggregate.id = id
  changes : s.aggregate.changes = emitted s.history
  returned : (returns s.history).Sublist s.aggregate.changes
  idle : s.aggregate.command = none → Idle s.history
    ∧ ∀ (c : ℕ) eventsOffset, s.calls[c]? ≠ some (.handler eventsOffset)
  busy : ∀ command, s.aggregate.command = some command → ∃ c post before,
    Busy s command c post before
  explained : Explained (Ok id) s.history

/-- A method leaves the identity and the command, and adds the events or else throws. -/
structure Registers (a : Aggregate I V σ) (result : Aggregate I V σ × Bool)
    (events : List (Event I V)) : Prop where
  id : result.1.id = a.id
  command : result.1.command = a.command
  changes : result.1.changes = a.changes ++ if result.2 then events else []
  version : Numbered (·.aggregateVersion) a.version events →
    result.1.version = a.version + if result.2 then events.length else 0

section Methods

variable [Truthy V] (T : AggregateType I V σ)

/-- `emit` checks the type and then registers what it makes. -/
theorem emit_eq_emitRaw [Truthy I] {type : String} (payload : V) (hid : truthy a.id = true) :
    T.emit a type payload = if type = "" then (a, false)
      else emitRaw T a (a.makeEvent type payload) := by
  have hraw : assertRaw (a.makeEvent type payload) = .ok () := by
    simp [assertRaw, assertDefined, assertNumber, Aggregate.makeEvent, hid, bind, Except.bind,
      truthy]
  rcases h : T.mutate a (a.makeEvent type payload) with ⟨a', _ | _⟩ <;>
    simp only [AggregateType.emit, emitRaw, hraw, h]

theorem Registers.mutate (a : Aggregate I V σ) (event : Event I V) :
    Registers a (match T.mutate a event with
      | (a', true) => ({ a' with changes := a'.changes ++ [event] }, true)
      | (a', false) => (a', false)) [event] := by
  rcases hm : T.mutate a event with ⟨a', _ | _⟩
  all_goals
    obtain ⟨h1, h2, h3⟩ : a'.id = a.id ∧ a'.command = a.command ∧ a'.changes = a.changes := by
      have ha : (T.mutate a event).1 = a' := by rw [hm]
      rw [← ha]
      exact ⟨rfl, rfl, rfl⟩
  · refine ⟨h1, h2, by simpa using h3, fun hv => ?_⟩
    have hret : (T.mutateState a.state event).2 = false := congrArg (·.2) hm
    have ha : (T.mutate a event).1.version = a'.version := by rw [hm]
    simpa [AggregateType.mutate, hret, hv.1] using ha.symm
  · refine ⟨h1, h2, by simp [h3], fun hv => ?_⟩
    have hver := AggregateType.mutate_version T a event (congrArg (·.2) hm)
    rw [hm, show event.aggregateVersion = some a.version from hv.1] at hver
    simpa using hver

omit [Truthy V] in
theorem Registers.none (a : Aggregate I V σ) (events : List (Event I V)) :
    Registers a (a, false) events := ⟨rfl, rfl, by simp, fun _ => rfl⟩

theorem Registers.emit (a : Aggregate I V σ) (type : String) (payload : V) :
    Registers a (T.emit a type payload) [a.makeEvent type payload] := by
  unfold AggregateType.emit
  split_ifs
  · exact .none ..
  · exact .mutate ..

theorem Registers.emitRaw [Truthy I] (a : Aggregate I V σ) (event : Event I V) :
    Registers a (emitRaw T a event) [event] := by
  unfold AbstractAggregate.emitRaw
  split
  · exact .none ..
  · exact .mutate ..

theorem Registers.takeSnapshot (a : Aggregate I V σ) :
    Registers a (T.takeSnapshot a) (snapshotEvent T a).toList := by
  unfold AggregateType.takeSnapshot snapshotEvent
  rcases T.makeSnapshot a.state with _ | payload
  · exact .none ..
  · have he : Registers a (T.emit a SNAPSHOT_EVENT_TYPE payload)
        [a.makeEvent SNAPSHOT_EVENT_TYPE payload] := .emit ..
    rcases hr : T.emit a SNAPSHOT_EVENT_TYPE payload with ⟨a', _ | _⟩ <;> rw [hr] at he <;>
      simp only [hr]
    · exact ⟨he.id, he.command, he.changes, he.version⟩
    · exact ⟨he.id, he.command, he.changes, he.version⟩

end Methods

theorem emitted_concat : emitted (h ++ [e]) = emitted h ++ e.event.toList := by
  cases e <;> simp [emitted, Entry.event]

theorem returns_concat_of_event {event : Event I V} (he : e.event = some event) :
    returns (h ++ [e]) = returns h := by
  cases e <;> simp [returns, Entry.event] at he ⊢

theorem not_bounds_of_event {event : Event I V} (he : e.event = some event) : ¬e.Bounds := by
  cases e <;> simp [Entry.Bounds, Entry.event] at he ⊢

theorem Idle.concat_of_event {event : Event I V} (hi : Idle h) (he : e.event = some event) :
    Idle (h ++ [e]) := by
  rintro c command post ⟨⟨pre, heq, -⟩, hends⟩
  rcases List.eq_nil_or_concat' post with rfl | ⟨post', e', rfl⟩
  · obtain ⟨-, hlast⟩ := List.append_inj' heq rfl
    obtain rfl := List.head_eq_of_cons_eq hlast
    cases he
  · rw [← List.cons_append, ← List.append_assoc] at heq
    obtain ⟨rfl, -⟩ := List.append_inj' heq rfl
    exact hi c command post' ⟨⟨pre, rfl, fun _ _ => trivial⟩, fun e' he' =>
      hends e' (List.mem_append_left _ he')⟩

/-- After the end of a call none has started. -/
theorem idle_concat (he : e.Bounds) (hs : ∀ c command, e ≠ .started c command) :
    Idle (h ++ [e]) := by
  rintro c command post ⟨⟨pre, heq, -⟩, hends⟩
  rcases List.eq_nil_or_concat' post with rfl | ⟨post', e', rfl⟩
  · obtain ⟨-, hlast⟩ := List.append_inj' heq rfl
    exact hs c command (List.head_eq_of_cons_eq hlast)
  · rw [← List.cons_append, ← List.append_assoc] at heq
    obtain ⟨-, hlast⟩ := List.append_inj' heq rfl
    obtain rfl := List.head_eq_of_cons_eq hlast
    exact hends e (List.mem_append_right _ (List.mem_singleton_self e)) he

theorem inv_init (hc : a.changes = []) (hcmd : a.command = none) :
    Inv a.id ({ aggregate := a } : Sys I V σ) where
  ofId := rfl
  changes := hc
  returned := List.nil_sublist _
  idle _ := ⟨fun _ _ _ hh => absurd (Since.mem hh) List.not_mem_nil, nofun⟩
  busy command h := by simp [hcmd] at h
  explained := explained_nil

/-- The aggregate's version and state may change at any time. -/
theorem Inv.ofAggregate (hi : Inv id s) (hid : a.id = s.aggregate.id)
    (hcmd : a.command = s.aggregate.command) (hc : a.changes = s.aggregate.changes) :
    Inv id { s with aggregate := a } where
  ofId := hid.trans hi.ofId
  changes := hc.trans hi.changes
  returned := hc ▸ hi.returned
  idle h := hi.idle (hcmd ▸ h)
  busy command h := by
    obtain ⟨c, post, before, hb⟩ := hi.busy command (hcmd ▸ h)
    exact ⟨c, post, before, hb.handling, hc.trans hb.changes, hb.returned, hb.only⟩
  explained := hi.explained

/-- An event is registered, made by `emit` or elsewhere. -/
theorem Inv.register (hi : Inv id s) {event : Event I V} (he : e.event = some event)
    (hid : a.id = s.aggregate.id) (hcmd : a.command = s.aggregate.command)
    (hc : a.changes = s.aggregate.changes ++ [event])
    (hm : e = .emitted event → ∃ type payload, event = s.aggregate.makeEvent type payload) :
    Inv id { s with aggregate := a, history := s.history ++ [e] } := by
  have hch : a.changes = emitted (s.history ++ [e]) := by
    rw [hc, emitted_concat, he, hi.changes]
    rfl
  have hret : returns (s.history ++ [e]) = returns s.history := returns_concat_of_event he
  refine ⟨hid.trans hi.ofId, hch, ?_, fun hn => ?_, fun command hs => ?_,
    explained_concat.2 ⟨hi.explained, ?_⟩⟩
  · rw [hret, hc]
    exact hi.returned.trans (List.sublist_append_left ..)
  · obtain ⟨hidle, hopen⟩ := hi.idle (hcmd ▸ hn)
    exact ⟨hidle.concat_of_event he, hopen⟩
  · obtain ⟨c, post, before, hb⟩ := hi.busy command (hcmd ▸ hs)
    refine ⟨c, post ++ [e], before, Since.concat hb.handling (not_bounds_of_event he) trivial, ?_,
      hret ▸ hb.returned, hb.only⟩
    rw [hc, hb.changes, emitted_concat, he, List.append_assoc]
    rfl
  · cases e with
    | emitted event' =>
      obtain rfl := Option.some.inj he
      obtain ⟨type, payload, rfl⟩ := hm rfl
      refine ⟨congrArg some hi.ofId, ?_⟩
      rcases hcommand : s.aggregate.command with _ | command
      · exact .inr ⟨(hi.idle hcommand).1, by simp [Aggregate.makeEvent, hcommand],
          by simp [Aggregate.makeEvent, hcommand]⟩
      · obtain ⟨c, post, before, hb⟩ := hi.busy command hcommand
        exact .inl ⟨c, command, post, hb.handling, by simp [Aggregate.makeEvent, hcommand],
          by simp [Aggregate.makeEvent, hcommand]⟩
    | emittedRaw event' => trivial
    | started c command => cases he
    | returned c events => cases he
    | failed c => cases he

theorem Inv.called (hi : Inv id s) {entry : Option (Entry I V)}
    (hr : Registers s.aggregate result (entry.bind Entry.event).toList)
    (he : ∀ e ∈ entry, ∃ event, e.event = some event
      ∧ (e = .emitted event → ∃ type payload, event = s.aggregate.makeEvent type payload)) :
    Inv id (s.called result entry) := by
  rcases result with ⟨a, _ | _⟩
  · exact hi.ofAggregate hr.id hr.command (hr.changes.trans (List.append_nil _))
  · rcases entry with _ | e
    · have hi' : Inv id { s with aggregate := a } :=
        hi.ofAggregate hr.id hr.command (hr.changes.trans (List.append_nil _))
      simpa [Sys.called] using hi'
    · obtain ⟨event, hev, hm⟩ := he e rfl
      refine hi.register hev hr.id hr.command ?_ hm
      have hc := hr.changes
      rw [Option.bind_some, hev] at hc
      exact hc

theorem handle_eq {a' : Aggregate I V σ} {eventsOffset : ℕ}
    (h : handle methods a command = .ok (a', eventsOffset)) :
    a.command = none ∧ a' = { a with command := some command }
      ∧ eventsOffset = a.changes.length := by
  unfold handle at h
  rcases hm : assertMessage command "command" with error | _ <;> rw [hm] at h
  · cases h
  rcases hf : assertFunction (getOptionalHandler methods command.type) command.type with
    error | _ <;> rw [hf] at h
  · cases h
  rcases hc : a.command with _ | command' <;> simp only [Aggregate.handle, hc] at h
  · obtain ⟨rfl, rfl⟩ := Prod.mk.inj (Except.ok.inj h)
    exact ⟨rfl, rfl, rfl⟩
  · cases h

theorem calls_concat {calls : List Call} {call call' : Call}
    (h : (calls ++ [call])[c]? = some call') :
    calls[c]? = some call' ∨ c = calls.length ∧ call = call' := by
  rw [List.getElem?_append] at h
  split_ifs at h with hlt
  · exact .inl h
  · obtain ⟨hlen, hcall⟩ := List.getElem?_eq_some_iff.1 h
    rw [List.length_singleton] at hlen
    exact .inr ⟨by omega, by simpa using hcall⟩

theorem Inv.rejected (hi : Inv id s) : Inv id { s with calls := s.calls ++ [.ended] } := by
  have hopen : ∀ (c : ℕ) eventsOffset, (s.calls ++ [.ended])[c]? = some (.handler eventsOffset) →
      s.calls[c]? = some (.handler eventsOffset) := by
    intro c eventsOffset hc
    rcases calls_concat hc with hc | ⟨-, hc⟩
    · exact hc
    · cases hc
  refine ⟨hi.ofId, hi.changes, hi.returned, fun hn => ?_, fun command hs => ?_, hi.explained⟩
  · obtain ⟨hidle, hall⟩ := hi.idle hn
    exact ⟨hidle, fun c eventsOffset hc => hall c eventsOffset (hopen c eventsOffset hc)⟩
  · obtain ⟨c, post, before, hb⟩ := hi.busy command hs
    exact ⟨c, post, before, hb.handling, hb.changes, hb.returned,
      fun c' eventsOffset hc => hb.only c' eventsOffset (hopen c' eventsOffset hc)⟩

theorem Inv.started (hi : Inv id s) (hn : s.aggregate.command = none) (command : Command I V) :
    Inv id {
      aggregate := { s.aggregate with command := some command }
      calls := s.calls ++ [.handler s.aggregate.changes.length]
      history := s.history ++ [.started s.calls.length command] } := by
  have hemitted : emitted (s.history ++ [.started s.calls.length command]) = emitted s.history := by
    rw [emitted_concat, Entry.event, Option.toList_none, List.append_nil]
  have hreturns : returns (s.history ++ [.started s.calls.length command]) = returns s.history := by
    simp [returns]
  refine ⟨hi.ofId, hi.changes.trans hemitted.symm, hreturns ▸ hi.returned, nofun,
    fun command' hs => ?_, explained_concat.2 ⟨hi.explained, (hi.idle hn).1⟩⟩
  obtain rfl := Option.some.inj hs
  refine ⟨s.calls.length, [], s.aggregate.changes, Since.new trivial, (List.append_nil _).symm,
    hreturns ▸ hi.returned, fun c' eventsOffset hc => ?_⟩
  rcases calls_concat hc with hc | ⟨hlen, hc⟩
  · exact absurd hc ((hi.idle hn).2 c' eventsOffset)
  · exact ⟨hlen, (Call.handler.inj hc).symm⟩

/-- A call of `handle` fails, or returns what is past its offset. -/
theorem Inv.finish (hi : Inv id s) {eventsOffset : ℕ}
    (hc : s.calls[c]? = some (.handler eventsOffset))
    (he : e = .failed c ∨ e = .returned c (s.aggregate.changes.drop eventsOffset)) :
    Inv id (s.finish c e) := by
  rcases hcommand : s.aggregate.command with _ | command
  · exact absurd hc ((hi.idle hcommand).2 c eventsOffset)
  obtain ⟨c', post, before, hb⟩ := hi.busy command hcommand
  obtain ⟨rfl, rfl⟩ := hb.only c eventsOffset hc
  have hdrop : s.aggregate.changes.drop before.length = emitted post := by
    rw [hb.changes, List.drop_left]
  have hemitted : emitted (s.history ++ [e]) = emitted s.history := by
    rw [emitted_concat]
    rcases he with rfl | rfl <;> exact List.append_nil _
  refine ⟨hi.ofId, hi.changes.trans hemitted.symm, ?_, fun _ => ⟨?_, fun c' offset' hc' => ?_⟩,
    nofun, explained_concat.2 ⟨hi.explained, ?_⟩⟩
  · show (returns (s.history ++ [e])).Sublist s.aggregate.changes
    rcases he with rfl | rfl
    · simpa [returns] using hi.returned
    · rw [hdrop, hb.changes]
      simpa [returns] using hb.returned.append_right (emitted post)
  · rcases he with rfl | rfl <;> exact idle_concat trivial nofun
  · simp only [Sys.finish, List.getElem?_set] at hc'
    split_ifs at hc' with hne hlt
    · cases hc'
    · exact hne (hb.only c' offset' hc').1.symm
  · rcases he with rfl | rfl
    · exact ⟨command, post, hb.handling⟩
    · exact ⟨command, post, hb.handling, hdrop⟩

section Steps

/-- Events emitted past `emit` carry the version they are emitted at, and no event is applied
that is not emitted. -/
def Own (s : Sys I V σ) : Action I V → Prop
  | .emitRaw event => event.aggregateVersion = some s.aggregate.version
  | .mutate _ => False
  | .handle _ | .emit _ _ | .takeSnapshot | .throws _ | .fulfils _ _ => True

instance (s : Sys I V σ) : DecidablePred (Own s) := fun a => by
  unfold Own
  cases a <;> infer_instance

/-- A method that registers is called by the action, with what it may register. -/
structure Calls (s : Sys I V σ) (act : Action I V) (result : Aggregate I V σ × Bool)
    (entry : Option (Entry I V)) : Prop where
  registers : Registers s.aggregate result (entry.bind Entry.event).toList
  made : ∀ e ∈ entry, ∃ event, e.event = some event
    ∧ (e = .emitted event → ∃ type payload, event = s.aggregate.makeEvent type payload)
  numbered : Own s act →
    Numbered (·.aggregateVersion) s.aggregate.version (entry.bind Entry.event).toList

/-- What a step can do. -/
inductive Moves (s : Sys I V σ) (act : Action I V) : Sys I V σ → Prop
  | rejected : Moves s act { s with calls := s.calls ++ [.ended] }
  | started (command : Command I V) (hn : s.aggregate.command = none) : Moves s act {
      aggregate := { s.aggregate with command := some command }
      calls := s.calls ++ [.handler s.aggregate.changes.length]
      history := s.history ++ [.started s.calls.length command] }
  | called {result entry} (h : Calls s act result entry) : Moves s act (s.called result entry)
  | mutated (a : Aggregate I V σ) (ho : ¬Own s act) (hid : a.id = s.aggregate.id)
      (hcmd : a.command = s.aggregate.command) (hc : a.changes = s.aggregate.changes) :
      Moves s act { s with aggregate := a }
  | finished {result entry c eventsOffset e} (h : Calls s act result entry)
      (hc : s.calls[c]? = some (.handler eventsOffset))
      (he : e = .failed c ∨
        e = .returned c ((s.called result entry).aggregate.changes.drop eventsOffset)) :
      Moves s act ((s.called result entry).finish c e)

theorem numbered_makeEvent (a : Aggregate I V σ) (type : String) (payload : V) :
    Numbered (·.aggregateVersion) a.version [a.makeEvent type payload] := ⟨rfl, trivial⟩

theorem Calls.nothing (s : Sys I V σ) (act : Action I V) (returned : Bool) :
    Calls s act (s.aggregate, returned) none :=
  ⟨⟨rfl, rfl, by simp, by simp⟩, nofun, fun _ => Numbered.nil _⟩

/-- The versions of the events are consecutive, and the aggregate's is the next. -/
structure Counted (v : ℕ) (a : Aggregate I V σ) : Prop where
  version : a.version = v + a.changes.length
  numbered : Numbered (·.aggregateVersion) v a.changes

theorem Counted.called {v : ℕ} (hv : Counted v s.aggregate) {act : Action I V}
    {entry : Option (Entry I V)} (h : Calls s act result entry) (ho : Own s act) :
    Counted v (s.called result entry).aggregate := by
  have hver := h.registers.version (h.numbered ho)
  have hch := h.registers.changes
  have hnum := h.numbered ho
  rcases result with ⟨a, _ | _⟩
  · rw [if_neg nofun] at hver hch
    rw [List.append_nil] at hch
    exact ⟨(hver.trans hv.version).trans (congrArg _ (congrArg _ hch.symm)), hch ▸ hv.numbered⟩
  · rw [if_pos rfl] at hver hch
    refine ⟨?_, ?_⟩
    · show a.version = v + a.changes.length
      rw [hver, hch, hv.version, List.length_append, Nat.add_assoc]
    · show Numbered _ v a.changes
      rw [hch]
      exact hv.numbered.append (hv.version ▸ hnum)

variable [Truthy V] {T : AggregateType I V σ}

theorem Calls.takeSnapshot (s : Sys I V σ) (act : Action I V) :
    Calls s act (T.takeSnapshot s.aggregate) ((snapshotEvent T s.aggregate).map .emitted) := by
  have hentry : ((snapshotEvent T s.aggregate).map Entry.emitted).bind Entry.event =
      snapshotEvent T s.aggregate := by
    cases snapshotEvent T s.aggregate <;> rfl
  refine ⟨?_, fun e he => ?_, fun _ => ?_⟩
  · rw [hentry]
    exact .takeSnapshot T s.aggregate
  · obtain ⟨event, hev, rfl⟩ := Option.map_eq_some_iff.1 he
    obtain ⟨payload, -, rfl⟩ := Option.map_eq_some_iff.1 hev
    exact ⟨_, rfl, fun _ => ⟨SNAPSHOT_EVENT_TYPE, payload, rfl⟩⟩
  · rw [hentry]
    unfold snapshotEvent
    rcases T.makeSnapshot s.aggregate.state with _ | payload
    · exact Numbered.nil _
    · exact numbered_makeEvent ..

theorem getUncommittedEvents_eq (a : Aggregate I V σ) (b : Bool) (eventsOffset : ℕ) :
    T.getUncommittedEvents a b eventsOffset =
      let result := if b then T.takeSnapshot a else (a, true)
      (result.1, if result.2 then some (result.1.changes.drop eventsOffset) else none) := by
  unfold AggregateType.getUncommittedEvents
  rcases (if b = true then T.takeSnapshot a else (a, true)) with ⟨a', _ | _⟩ <;> rfl

variable [Truthy I]

theorem step_moves {act : Action I V} (hst : step T methods s act = some s') : Moves s act s' := by
  cases act with
  | handle command =>
    simp only [step] at hst
    split at hst <;> obtain rfl := Option.some.inj hst
    · next a eventsOffset hh =>
      obtain ⟨hn, rfl, rfl⟩ := handle_eq hh
      exact .started command hn
    · exact .rejected
  | emit type payload =>
    obtain rfl := Option.some.inj hst
    exact .called ⟨.emit T s.aggregate type payload,
      fun e he => ⟨_, Option.some.inj he ▸ rfl, fun _ => ⟨type, payload, rfl⟩⟩,
      fun _ => numbered_makeEvent ..⟩
  | emitRaw event =>
    obtain rfl := Option.some.inj hst
    exact .called ⟨.emitRaw T s.aggregate event,
      fun e he => ⟨event, Option.some.inj he ▸ rfl, fun h => by
        obtain rfl := Option.some.inj he
        cases h⟩,
      fun ho => ⟨ho, trivial⟩⟩
  | takeSnapshot =>
    obtain rfl := Option.some.inj hst
    exact .called (.takeSnapshot s _)
  | mutate event =>
    obtain rfl := Option.some.inj hst
    exact .mutated _ id rfl rfl rfl
  | throws c =>
    simp only [step] at hst
    split at hst
    · next eventsOffset hc =>
      obtain rfl := Option.some.inj hst
      exact .finished (.nothing s (.throws c) false) hc (.inl rfl)
    · cases hst
  | fulfils c b =>
    simp only [step] at hst
    split at hst
    · next eventsOffset hc =>
      rw [getUncommittedEvents_eq] at hst
      cases b with
      | false =>
        obtain rfl := Option.some.inj hst
        exact .finished (.nothing s (.fulfils c false) true) hc (.inr rfl)
      | true =>
        have h := Calls.takeSnapshot (T := T) s (.fulfils c true)
        rcases hr : T.takeSnapshot s.aggregate with ⟨a, _ | _⟩ <;> rw [hr] at h <;>
          simp only [↓reduceIte, hr] at hst <;> obtain rfl := Option.some.inj hst
        · exact .finished h hc (.inl rfl)
        · exact .finished h hc (.inr rfl)
    · cases hst

theorem Inv.step (hi : Inv id s) {act : Action I V} (hst : step T methods s act = some s') :
    Inv id s' := by
  cases step_moves hst with
  | rejected => exact hi.rejected
  | started command hn => exact hi.started hn command
  | called h => exact hi.called h.registers h.made
  | mutated a _ hid hcmd hc => exact hi.ofAggregate hid hcmd hc
  | finished h hc he =>
    refine (hi.called h.registers h.made).finish ?_ he
    unfold Sys.called
    split <;> exact hc

theorem Counted.step {v : ℕ} (hv : Counted v s.aggregate) {act : Action I V} (ho : Own s act)
    (hst : step T methods s act = some s') : Counted v s'.aggregate := by
  cases step_moves hst with
  | rejected => exact hv
  | started command hn => exact ⟨hv.version, hv.numbered⟩
  | called h => exact hv.called h ho
  | mutated a hn => exact absurd ho hn
  | finished h hc he => exact ⟨(hv.called h ho).version, (hv.called h ho).numbered⟩

end Steps

section Runs

/-- What is counted are the events applied, and it is the snapshot too. -/
def tally : AggregateType ℕ ℕ ℕ where
  state _ := 0
  handler n _ := (n + 1, true)
  makeSnapshot n := some n
  restoreSnapshot _ v := some v

def order (type : String) (context : ℕ) : Command ℕ ℕ :=
  { type, payload := 0, context := some context }

def event (type : String) (aggregateVersion : ℕ) (context : Option ℕ) : Event ℕ ℕ :=
  { type, aggregateId := some 7, aggregateVersion := some aggregateVersion, payload := 0, context }

/-- A handler that has emitted throws. Of the next two calls, which overlap, one is rejected; what
else is emitted meanwhile is also returned, and a snapshot is. -/
def overlapping : List (Action ℕ ℕ) :=
  [.emit "early" 0, .handle (order "place" 1), .emit "lost" 0, .throws 0, .emit "late" 0,
    .handle (order "pay" 2), .handle (order "place" 3), .emit "paid" 0,
    .emitRaw (event "noted" 7 none), .fulfils 1 true]

end Runs

end NodeCqrs.AbstractAggregate
