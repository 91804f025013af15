import NodeCqrs.Aggregate
import NodeCqrs.Lib.Numbered
import NodeCqrs.Lib.Thinned

/-!
# What an instance has applied

`Emitted` says of an instance before and after a stretch of a handler what was emitted between,
and `Synced` that an instance is what the first of the stored events of its aggregate make it,
as many as its version counts. What a new instance has read of them is `Reads`: it is synced with
them (`Reads.synced`) from a snapshot that holds the state at its version, or from the event types
a class restores from, if the state reacts to no others.
-/

namespace NodeCqrs

variable {I V σ : Type}

/-- The stored events of the aggregate. -/
def stored [DecidableEq I] (log : List (Event I V)) (id : I) : List (Event I V) :=
  log.filter (·.aggregateId = some id)

namespace AggregateType

variable [Truthy V] (T : AggregateType I V σ)

/-- The state after the events. -/
def stateAfter (state : σ) (events : List (Event I V)) : σ :=
  events.foldl (fun state event => (T.mutateState state event).1) state

omit [Truthy V] in
/-- An event of the type is read when an instance is restored. -/
def restores (event : Event I V) : Bool :=
  match T.restoresFrom with
  | none | some [] => true
  | some restoresFrom => event.type ∈ restoresFrom

/-- The events whose types the class does not restore from leave the state as it is. -/
def Sufficient : σ → List (Event I V) → Prop
  | _, [] => True
  | state, event :: events =>
    (T.restores event = false → (T.mutateState state event).1 = state)
    ∧ Sufficient (T.mutateState state event).1 events

/-- No handler of the state throws. -/
def Replays : σ → List (Event I V) → Prop
  | _, [] => True
  | state, event :: events =>
    (T.mutateState state event).2 = true ∧ Replays (T.mutateState state event).1 events

/-- The snapshot events among the events have snapshots of the states they were emitted in. -/
def Taken (state : σ) (events : List (Event I V)) : Prop :=
  ∀ (j : ℕ) S, events[j]? = some S → S.type = SNAPSHOT_EVENT_TYPE →
    T.makeSnapshot (T.stateAfter state (events.take j)) = some S.payload

/-- A snapshot of a state restores it, in a new instance and in the one it was taken of. -/
def RestoresSnapshots : Prop :=
  ∀ id (events : List (Event I V)) v, T.makeSnapshot (T.stateAfter (T.state id) events) = some v →
    T.restoreSnapshot (T.state id) v = some (T.stateAfter (T.state id) events)
    ∧ T.restoreSnapshot (T.stateAfter (T.state id) events) v =
      some (T.stateAfter (T.state id) events)

/-- The instance has emitted the events. -/
structure Emitted (a a' : Aggregate I V σ) (events : List (Event I V)) : Prop where
  id : a'.id = a.id
  changes : a'.changes = a.changes ++ events
  version : a'.version = a.version + events.length
  state : a'.state = T.stateAfter a.state events
  returned : T.Replays a.state events
  numbered : Numbered (·.aggregateVersion) a.version events
  ofId : ∀ e ∈ events, e.aggregateId = some a.id

/-- The instance has added the events to its changes, whatever its state has become. -/
structure Adds (a a' : Aggregate I V σ) (events : List (Event I V)) : Prop where
  id : a'.id = a.id
  changes : a'.changes = a.changes ++ events
  version : a'.version = a.version + events.length
  numbered : Numbered (·.aggregateVersion) a.version events
  ofId : ∀ e ∈ events, e.aggregateId = some a.id

variable {T}

@[simp] theorem stateAfter_nil (state : σ) : T.stateAfter state [] = state := rfl

theorem stateAfter_cons (state : σ) (event : Event I V) (events : List (Event I V)) :
    T.stateAfter state (event :: events) = T.stateAfter (T.mutateState state event).1 events := rfl

theorem stateAfter_append (state : σ) (events events' : List (Event I V)) :
    T.stateAfter state (events ++ events') = T.stateAfter (T.stateAfter state events) events' :=
  List.foldl_append

theorem sufficient_append : ∀ {events events' : List (Event I V)} {state : σ},
    T.Sufficient state (events ++ events') ↔
      T.Sufficient state events ∧ T.Sufficient (T.stateAfter state events) events'
  | [], events', state => by simp [Sufficient]
  | event :: events, events', state => by
    have ih : ∀ state', T.Sufficient state' (events ++ events') ↔ T.Sufficient state' events
        ∧ T.Sufficient (T.stateAfter state' events) events' := fun _ => sufficient_append
    simp only [List.cons_append, Sufficient, ih, stateAfter_cons, and_assoc]

theorem replays_append : ∀ {events events' : List (Event I V)} {state : σ},
    T.Replays state (events ++ events') ↔
      T.Replays state events ∧ T.Replays (T.stateAfter state events) events'
  | [], events', state => by simp [Replays]
  | event :: events, events', state => by
    have ih : ∀ state', T.Replays state' (events ++ events') ↔ T.Replays state' events
        ∧ T.Replays (T.stateAfter state' events) events' := fun _ => replays_append
    simp only [List.cons_append, Replays, ih, stateAfter_cons, and_assoc]

theorem Sufficient.take {state : σ} {events : List (Event I V)} (h : T.Sufficient state events)
    (n : ℕ) : T.Sufficient state (events.take n) := by
  rw [← List.take_append_drop n events] at h
  exact (sufficient_append.1 h).1

theorem Replays.take {state : σ} {events : List (Event I V)} (h : T.Replays state events)
    (n : ℕ) : T.Replays state (events.take n) := by
  rw [← List.take_append_drop n events] at h
  exact (replays_append.1 h).1

/-- A class that restores from all event types restores everything. -/
theorem sufficient_of_restores (h : ∀ event, T.restores event) :
    ∀ (state : σ) (events : List (Event I V)), T.Sufficient state events
  | _, [] => trivial
  | state, event :: events =>
    ⟨fun hf => by simp [h event] at hf, sufficient_of_restores h _ events⟩

/-- Only the events of the types a class restores from count. -/
theorem stateAfter_filter : ∀ {events : List (Event I V)} {state : σ},
    T.Sufficient state events →
      T.stateAfter state (events.filter (T.restores ·)) = T.stateAfter state events
  | [], _, _ => rfl
  | event :: events, state, h => by
    by_cases hr : T.restores event
    · rw [List.filter_cons_of_pos hr, stateAfter_cons, stateAfter_cons, stateAfter_filter h.2]
    · rw [List.filter_cons_of_neg hr, stateAfter_cons, ← stateAfter_filter h.2,
        h.1 (by simpa using hr)]

theorem Taken.append {state : σ} {events events' : List (Event I V)} (h : T.Taken state events)
    (h' : T.Taken (T.stateAfter state events) events') : T.Taken state (events ++ events') := by
  intro j S hj ht
  by_cases hlt : j < events.length
  · rw [List.getElem?_append_left hlt] at hj
    rw [List.take_append_of_le_length (Nat.le_of_lt hlt)]
    exact h j S hj ht
  · have hle : events.length ≤ j := Nat.le_of_not_lt hlt
    rw [List.getElem?_append_right hle] at hj
    rw [List.take_append, List.take_of_length_le hle, stateAfter_append]
    exact h' _ S hj ht

section mutate

variable (T) (a : Aggregate I V σ) (event : Event I V)

@[simp] theorem mutate_id : (T.mutate a event).1.id = a.id := rfl
@[simp] theorem mutate_changes : (T.mutate a event).1.changes = a.changes := rfl
@[simp] theorem mutate_command : (T.mutate a event).1.command = a.command := rfl
@[simp] theorem mutate_state : (T.mutate a event).1.state = (T.mutateState a.state event).1 := rfl
@[simp] theorem mutate_returned : (T.mutate a event).2 = (T.mutateState a.state event).2 := rfl

theorem mutate_version (h : (T.mutate a event).2 = true) :
    (T.mutate a event).1.version = event.aggregateVersion.getD a.version + 1 := by
  simp only [mutate_returned] at h
  simp [mutate, h]

end mutate

omit [Truthy V] in
theorem Adds.refl {a a' : Aggregate I V σ} (hid : a'.id = a.id) (hc : a'.changes = a.changes)
    (hv : a'.version = a.version) : Adds a a' [] :=
  ⟨hid, by simpa using hc, hv, Numbered.nil _, by simp⟩

omit [Truthy V] in
theorem Adds.trans {a a' a'' : Aggregate I V σ} {events events' : List (Event I V)}
    (h : Adds a a' events) (h' : Adds a' a'' events') : Adds a a'' (events ++ events') where
  id := h'.id.trans h.id
  changes := by rw [h'.changes, h.changes, List.append_assoc]
  version := by rw [h'.version, h.version, List.length_append, Nat.add_assoc]
  numbered := h.numbered.append (h.version ▸ h'.numbered)
  ofId e he := (List.mem_append.1 he).elim (h.ofId e) fun he => h.id ▸ h'.ofId e he

theorem Emitted.adds {a a' : Aggregate I V σ} {events : List (Event I V)}
    (h : T.Emitted a a' events) : Adds a a' events :=
  ⟨h.id, h.changes, h.version, h.numbered, h.ofId⟩

theorem Emitted.refl {a a' : Aggregate I V σ} (hid : a'.id = a.id) (hc : a'.changes = a.changes)
    (hv : a'.version = a.version) (hs : a'.state = a.state) : T.Emitted a a' [] :=
  ⟨hid, by simpa using hc, hv, hs, trivial, Numbered.nil _, by simp⟩

theorem Emitted.trans {a a' a'' : Aggregate I V σ} {events events' : List (Event I V)}
    (h : T.Emitted a a' events) (h' : T.Emitted a' a'' events') :
    T.Emitted a a'' (events ++ events') where
  id := h'.id.trans h.id
  changes := by rw [h'.changes, h.changes, List.append_assoc]
  version := by rw [h'.version, h.version, List.length_append, Nat.add_assoc]
  state := by rw [h'.state, h.state, stateAfter_append]
  returned := replays_append.2 ⟨h.returned, h.state ▸ h'.returned⟩
  numbered := h.numbered.append (h.version ▸ h'.numbered)
  ofId e he := (List.mem_append.1 he).elim (h.ofId e) fun he => h.id ▸ h'.ofId e he

/-- `emit` emits the one event it makes, or throws. -/
theorem emit_emitted {a a' : Aggregate I V σ} {type : String} {payload : V}
    (h : T.emit a type payload = (a', true)) :
    T.Emitted a a' [a.makeEvent type payload] := by
  simp only [emit] at h
  split_ifs at h
  · simp at h
  · split at h
    · rename_i a'' hm
      simp only [Prod.mk.injEq, and_true] at h
      subst h
      have h1 : (T.mutate a (a.makeEvent type payload)).1 = a'' := by rw [hm]
      have h2 : (T.mutate a (a.makeEvent type payload)).2 = true := by rw [hm]
      subst h1
      refine ⟨rfl, rfl, mutate_version T a _ h2, rfl, ⟨h2, trivial⟩, ⟨rfl, trivial⟩, ?_⟩
      simp [Aggregate.makeEvent]
    · simp at h

theorem emit_id (a : Aggregate I V σ) (type : String) (payload : V) :
    (T.emit a type payload).1.id = a.id := by
  simp only [emit]
  split_ifs
  · rfl
  · split <;> rename_i h <;> exact congrArg (·.1.id) h.symm

/-- An `emit` that throws has added nothing and is of the version it was. -/
theorem emit_threw {a a' : Aggregate I V σ} {type : String} {payload : V}
    (h : T.emit a type payload = (a', false)) : Adds a a' [] := by
  simp only [emit] at h
  split_ifs at h
  · obtain rfl := (Prod.mk.inj h).1
    exact .refl rfl rfl rfl
  · split at h
    · simp at h
    · rename_i a'' hm
      obtain rfl := (Prod.mk.inj h).1
      have ha : (T.mutate a (a.makeEvent type payload)).1 = a'' := by rw [hm]
      have hr : (T.mutateState a.state (a.makeEvent type payload)).2 = false :=
        congrArg (·.2) hm
      have hv : (a.makeEvent type payload).aggregateVersion = some a.version := rfl
      subst ha
      exact .refl rfl rfl (by simp [mutate, hr, hv])

/-- An `emit` adds its event, or nothing. -/
theorem emit_adds (a : Aggregate I V σ) (type : String) (payload : V) :
    ∃ events, Adds a (T.emit a type payload).1 events := by
  rcases h : T.emit a type payload with ⟨a', _ | _⟩
  · exact ⟨[], emit_threw h⟩
  · exact ⟨_, (emit_emitted h).adds⟩

/-- `takeSnapshot` emits a snapshot of the state, or throws. -/
theorem takeSnapshot_emitted {a a' : Aggregate I V σ} (h : T.takeSnapshot a = (a', true)) :
    ∃ payload, T.makeSnapshot a.state = some payload
      ∧ T.Emitted a a' [a.makeEvent SNAPSHOT_EVENT_TYPE payload] := by
  simp only [takeSnapshot] at h
  split at h
  · simp at h
  · rename_i payload hp
    split at h
    · rename_i a'' he
      simp only [Prod.mk.injEq, and_true] at h
      subst h
      obtain ⟨h1, h2, h3, h4, h5, h6, h7⟩ := emit_emitted he
      exact ⟨payload, hp, h1, h2, h3, h4, h5, h6, h7⟩
    · simp at h

theorem takeSnapshot_id (a : Aggregate I V σ) : (T.takeSnapshot a).1.id = a.id := by
  simp only [takeSnapshot]
  split
  · rfl
  · rename_i payload _
    have hid := emit_id (T := T) a SNAPSHOT_EVENT_TYPE payload
    split <;> rename_i h <;> rw [h] at hid <;> exact hid

theorem takeSnapshot_threw {a a' : Aggregate I V σ} (h : T.takeSnapshot a = (a', false)) :
    Adds a a' [] := by
  simp only [takeSnapshot] at h
  split at h
  · obtain rfl := (Prod.mk.inj h).1
    exact .refl rfl rfl rfl
  · split at h
    · simp at h
    · rename_i he
      obtain rfl := (Prod.mk.inj h).1
      exact emit_threw he

theorem takeSnapshot_adds (a : Aggregate I V σ) :
    ∃ events, Adds a (T.takeSnapshot a).1 events := by
  rcases h : T.takeSnapshot a with ⟨a', _ | _⟩
  · exact ⟨[], takeSnapshot_threw h⟩
  · obtain ⟨payload, -, he⟩ := takeSnapshot_emitted h
    exact ⟨_, he.adds⟩

/-- Whether a handler's call returns or throws, the versions of the changes go on. -/
theorem callMethod_adds (a : Aggregate I V σ) : ∀ method : Method V,
    ∃ events, Adds a (T.callMethod a method).1 events
  | .emit type payload => emit_adds a type payload
  | .takeSnapshot => takeSnapshot_adds a

theorem taken_singleton {state : σ} {event : Event I V}
    (h : event.type = SNAPSHOT_EVENT_TYPE → T.makeSnapshot state = some event.payload) :
    T.Taken state [event] := by
  rintro (_ | j) S hj ht
  · obtain rfl : event = S := by simpa using hj
    exact h ht
  · simp at hj

theorem taken_nil (state : σ) : T.Taken state [] := by
  intro j S hj
  simp at hj

/-- What `handle` returns are the events from the offset on, a snapshot perhaps the last. -/
theorem getUncommittedEvents_emitted {a a' : Aggregate I V σ} {b : Bool} {offset : ℕ}
    {events : List (Event I V)}
    (h : T.getUncommittedEvents a b offset = (a', some events)) :
    events = a'.changes.drop offset ∧ ∃ new, T.Emitted a a' new ∧ T.Taken a.state new := by
  simp only [getUncommittedEvents] at h
  split at h
  · rename_i a'' hs
    obtain ⟨rfl, he⟩ := Prod.mk.inj h
    refine ⟨(Option.some.inj he).symm, ?_⟩
    split_ifs at hs
    · obtain ⟨payload, hp, he⟩ := takeSnapshot_emitted hs
      exact ⟨_, he, taken_singleton fun _ => hp⟩
    · obtain rfl := (Prod.mk.inj hs).1
      exact ⟨[], .refl rfl rfl rfl rfl, taken_nil _⟩
  · simp at h

theorem getUncommittedEvents_id (a : Aggregate I V σ) (b : Bool) (offset : ℕ) :
    (T.getUncommittedEvents a b offset).1.id = a.id := by
  have hid : (if b = true then T.takeSnapshot a else (a, true)).1.id = a.id := by
    split_ifs
    · exact takeSnapshot_id a
    · rfl
  simp only [getUncommittedEvents]
  split <;> rename_i h <;> rw [h] at hid <;> exact hid

theorem getUncommittedEvents_adds (a : Aggregate I V σ) (b : Bool) (offset : ℕ) :
    (∃ new, Adds a (T.getUncommittedEvents a b offset).1 new)
      ∧ ∀ events ∈ (T.getUncommittedEvents a b offset).2,
        events = (T.getUncommittedEvents a b offset).1.changes.drop offset := by
  have hadds : ∃ new, Adds a (if b = true then T.takeSnapshot a else (a, true)).1 new := by
    split_ifs
    · exact takeSnapshot_adds a
    · exact ⟨[], .refl rfl rfl rfl⟩
  simp only [getUncommittedEvents]
  split <;> rename_i h <;> rw [h] at hadds
  · exact ⟨hadds, fun events he => (Option.some.inj he).symm⟩
  · exact ⟨hadds, fun events he => by cases he⟩

theorem emitAll_emitted : ∀ {emitted : List (String × V)} {a a' : Aggregate I V σ},
    T.emitAll a emitted = (a', true) →
    ∃ events, T.Emitted a a' events ∧ ∀ e ∈ events, e.type ≠ "" ∧ e.type ∈ emitted.map Prod.fst
  | [], a, a', h => by
    obtain rfl : a = a' := by simpa [emitAll] using h
    exact ⟨[], .refl rfl rfl rfl rfl, by simp⟩
  | (type, payload) :: emitted, a, a', h => by
    rcases he : T.emit a type payload with ⟨b, _ | _⟩
    · simp [emitAll, he] at h
    · obtain ⟨events, hev, htypes⟩ := emitAll_emitted (show T.emitAll b emitted = (a', true) by
        simpa [emitAll, he] using h)
      have htype : type ≠ "" := by
        rintro rfl
        simp [emit] at he
      refine ⟨_, (emit_emitted he).trans hev, fun e hmem => ?_⟩
      rcases List.mem_append.1 hmem with hmem | hmem
      · obtain rfl := List.mem_singleton.1 hmem
        exact ⟨htype, by simp [Aggregate.makeEvent]⟩
      · exact ⟨(htypes e hmem).1, List.mem_cons_of_mem _ (htypes e hmem).2⟩

/-- The events of a command are those its handler emitted, with a snapshot of the state they leave
if one is taken. -/
structure Handled (T : AggregateType I V σ) (a a' : Aggregate I V σ)
    (emissions : List (String × V)) (shouldTakeSnapshot : Bool) (events : List (Event I V)) :
    Prop where
  command : a'.command = none
  emitted : T.Emitted a a' events
  types : ∀ e ∈ events, e.type ≠ ""
  snapshot : ∃ new, (∀ e ∈ new, e.type ∈ emissions.map Prod.fst) ∧ if shouldTakeSnapshot then
    ∃ S, events = new ++ [S] ∧ S.type = SNAPSHOT_EVENT_TYPE
      ∧ T.makeSnapshot (T.stateAfter a.state new) = some S.payload
    else events = new

/-- A command that is handled was emitted for, and its events are those past the offset. -/
theorem handle_parts {a a' : Aggregate I V σ} {command : Command I V}
    {emitted : List (String × V)} {shouldTakeSnapshot : Bool} {events : List (Event I V)}
    (h : T.handle a command emitted shouldTakeSnapshot = some (a', events)) :
    ∃ b c, T.emitAll { a with command := some command } emitted = (b, true)
      ∧ T.getUncommittedEvents b shouldTakeSnapshot a.changes.length = (c, some events)
      ∧ a' = { c with command := none } := by
  unfold handle at h
  rcases hc : a.handle command with _ | ⟨b, eventsOffset⟩
  · simp [hc] at h
  rcases he : T.emitAll b emitted with ⟨b', _ | _⟩
  · simp [hc, he] at h
  rcases hu : T.getUncommittedEvents b' shouldTakeSnapshot eventsOffset with ⟨b'', _ | events'⟩
  · simp [hc, he, hu] at h
  obtain ⟨rfl, rfl⟩ : { b'' with command := none } = a' ∧ events' = events := by
    simpa [hc, he, hu] using h
  obtain ⟨rfl, rfl⟩ : { a with command := some command } = b ∧ a.changes.length = eventsOffset := by
    unfold Aggregate.handle at hc
    split at hc
    · cases hc
    · simpa using hc
  exact ⟨b', b'', he, hu, rfl⟩

theorem handle_handled {a a' : Aggregate I V σ} {command : Command I V}
    {emitted : List (String × V)} {shouldTakeSnapshot : Bool} {events : List (Event I V)}
    (h : T.handle a command emitted shouldTakeSnapshot = some (a', events)) :
    T.Handled a a' emitted shouldTakeSnapshot events := by
  obtain ⟨b', b'', he, hu, rfl⟩ := handle_parts h
  obtain ⟨new, hnew, htypes⟩ := emitAll_emitted he
  have hfrom : ∀ e ∈ new, e.type ∈ emitted.map Prod.fst := fun e he => (htypes e he).2
  -- the offset leaves what was emitted
  have hdrop : ∀ {l : List (Event I V)}, b''.changes = a.changes ++ l →
      b''.changes.drop a.changes.length = l := by
    intro l hl
    rw [hl, List.drop_left]
  simp only [getUncommittedEvents] at hu
  cases shouldTakeSnapshot with
  | false =>
    obtain ⟨rfl, rfl⟩ : b' = b'' ∧ b'.changes.drop a.changes.length = events := by
      simpa using hu
    rw [hdrop hnew.changes]
    exact ⟨rfl, ⟨hnew.id, hnew.changes, hnew.version, hnew.state, hnew.returned, hnew.numbered,
      hnew.ofId⟩, fun e he => (htypes e he).1, new, hfrom, rfl⟩
  | true =>
    rcases ht : T.takeSnapshot b' with ⟨c, _ | _⟩
    · simp [ht] at hu
    obtain ⟨rfl, rfl⟩ : c = b'' ∧ c.changes.drop a.changes.length = events := by
      simpa [ht] using hu
    obtain ⟨payload, hp, hS⟩ := takeSnapshot_emitted ht
    have hall := hnew.trans hS
    rw [hdrop hall.changes]
    refine ⟨rfl, ⟨hall.id, hall.changes, hall.version, hall.state, hall.returned, hall.numbered,
      hall.ofId⟩, fun e he => ?_, new, hfrom, ?_⟩
    · rcases List.mem_append.1 he with he | he
      · exact (htypes e he).1
      · obtain rfl := List.mem_singleton.1 he
        simp [Aggregate.makeEvent, SNAPSHOT_EVENT_TYPE]
    · rw [if_pos rfl]
      rw [hnew.state] at hp
      exact ⟨_, rfl, rfl, hp⟩

theorem Handled.taken {a a' : Aggregate I V σ} {emitted : List (String × V)}
    {shouldTakeSnapshot : Bool} {events : List (Event I V)}
    (h : T.Handled a a' emitted shouldTakeSnapshot events)
    (hs : SNAPSHOT_EVENT_TYPE ∉ emitted.map Prod.fst) : T.Taken a.state events := by
  obtain ⟨new, hfrom, hsnap⟩ := h.snapshot
  have hnew : T.Taken a.state new := by
    intro j S hj ht
    exact absurd (ht ▸ hfrom S (List.mem_of_getElem? hj)) hs
  split_ifs at hsnap
  · obtain ⟨S, rfl, -, hS⟩ := hsnap
    exact hnew.append (taken_singleton fun _ => hS)
  · rwa [hsnap]

section restore

variable {log events : List (Event I V)} {id : I}

theorem mutateAll_append : ∀ {events events' : List (Event I V)} {a : Aggregate I V σ},
    T.mutateAll a (events ++ events') = (T.mutateAll a events).bind (T.mutateAll · events')
  | [], _, _ => rfl
  | event :: events, events', a => by
    simp only [List.cons_append, mutateAll]
    split
    · exact mutateAll_append
    · rfl

/-- A restored instance has the events' state, and nothing emitted. -/
theorem mutateAll_spec : ∀ {events : List (Event I V)} {a a' : Aggregate I V σ},
    T.mutateAll a events = some a' → a'.id = a.id ∧ a'.changes = a.changes
      ∧ a'.command = a.command ∧ a'.state = T.stateAfter a.state events
  | [], a, a', h => by
    obtain rfl := Option.some.inj h
    exact ⟨rfl, rfl, rfl, rfl⟩
  | event :: events, a, a', h => by
    simp only [mutateAll] at h
    split at h
    · rename_i a'' hm
      obtain ⟨h1, h2, h3, h4⟩ := mutateAll_spec h
      have h' : (T.mutate a event).1 = a'' := by rw [hm]
      subst h'
      exact ⟨h1, h2, h3, h4⟩
    · cases h

theorem mutateAll_version {event : Event I V} {a a' : Aggregate I V σ} {v : ℕ}
    (h : T.mutateAll a (events ++ [event]) = some a') (hv : event.aggregateVersion = some v) :
    a'.version = v + 1 := by
  rw [mutateAll_append] at h
  obtain ⟨a'', -, h⟩ := Option.bind_eq_some_iff.1 h
  simp only [mutateAll] at h
  split at h
  · rename_i b hm
    obtain rfl := Option.some.inj h
    have h1 : (T.mutate a'' event).1 = b := by rw [hm]
    have h2 : (T.mutate a'' event).2 = true := by rw [hm]
    subst h1
    rw [mutate_version T a'' event h2, hv, Option.getD_some]
  · cases h

/-- What is read of the events past the snapshot: those of the types a class restores from, and the
last one. -/
def query (T : AggregateType I V σ) (all : List (Event I V)) : List (Event I V) :=
  all.filter (T.restores ·) ++ (all.getLast?.filter (!T.restores ·)).toList

omit [Truthy V] in
theorem getAggregateEvents_eq [DecidableEq I] (snapshot : Option (Event I V)) :
    T.getAggregateEvents log id snapshot = snapshot.toList
      ++ T.query (InMemoryEventStorage.allAfterSnapshot log id snapshot) := by
  rcases h : T.restoresFrom with _ | _ | ⟨type, types⟩
  · simp [getAggregateEvents, queryOptions, InMemoryEventStorage.getAggregateEvents, query,
      restores, h]
  · simp [getAggregateEvents, queryOptions, InMemoryEventStorage.getAggregateEvents, query,
      restores, h]
  · simp [getAggregateEvents, queryOptions, InMemoryEventStorage.getAggregateEvents, query,
      restores, h]

theorem stateAfter_query {all : List (Event I V)} {state : σ} (h : T.Sufficient state all) :
    T.stateAfter state (T.query all) = T.stateAfter state all := by
  rw [query, stateAfter_append, stateAfter_filter h]
  rcases List.eq_nil_or_concat' all with rfl | ⟨l, e, rfl⟩
  · rfl
  · rcases hr : T.restores e
    · -- the last event is applied again and leaves the state as it is
      obtain ⟨-, hlast, -⟩ := sufficient_append.1 h
      have hl := hlast hr
      simp only [List.getLast?_concat, Option.filter, hr, stateAfter_append, stateAfter_cons,
        stateAfter_nil, Bool.not_false, if_true, Option.toList, hl]
    · simp [Option.filter, hr]

omit [Truthy V] in
theorem query_concat (all : List (Event I V)) (event : Event I V) :
    ∃ l, T.query (all ++ [event]) = l ++ [event] := by
  rcases hr : T.restores event
  · exact ⟨(all ++ [event]).filter (T.restores ·), by simp [query, Option.filter, hr]⟩
  · exact ⟨all.filter (T.restores ·), by simp [query, Option.filter, hr]⟩

/-- The last event past the snapshot is read, and its version counts. -/
theorem mutateAll_query_concat {events l : List (Event I V)} {e : Event I V}
    {a a' : Aggregate I V σ} {v : ℕ} (hv : e.aggregateVersion = some v)
    (h : T.mutateAll a (events ++ T.query (l ++ [e])) = some a') : a'.version = v + 1 := by
  obtain ⟨l', hq⟩ := T.query_concat l e
  rw [hq, ← List.append_assoc] at h
  exact mutateAll_version h hv

end restore

section synced

variable [DecidableEq I]

omit [Truthy V] in
/-- The snapshot event is the stored event of its version. -/
def StoredSnapshot (log : List (Event I V)) (id : I) (S : Event I V) : Prop :=
  ∃ k, S.aggregateVersion = some k ∧ (stored log id)[k]? = some S ∧ S.type = SNAPSHOT_EVENT_TYPE

/-- The instance is what the first of the stored events make it, as many as its version counts. -/
structure Synced (T : AggregateType I V σ) (log : List (Event I V)) (a : Aggregate I V σ) :
    Prop where
  version : a.version ≤ (stored log a.id).length
  state : T.Sufficient (T.state a.id) ((stored log a.id).take a.version) →
    a.state = T.stateAfter (T.state a.id) ((stored log a.id).take a.version)

variable {log : List (Event I V)} {id : I}

/-- The snapshots in the stored events of an aggregate are of the states before. -/
def TakenIn (T : AggregateType I V σ) (log : List (Event I V)) (id : I) : Prop :=
  ∀ (k : ℕ) S, (stored log id)[k]? = some S → S.type = SNAPSHOT_EVENT_TYPE →
    T.Sufficient (T.state id) ((stored log id).take k) →
      T.makeSnapshot (T.stateAfter (T.state id) ((stored log id).take k)) = some S.payload

omit [Truthy V] in
theorem allAfterSnapshot_none :
    InMemoryEventStorage.allAfterSnapshot log id none = stored log id := rfl

omit [Truthy V] in
theorem allAfterSnapshot_filter {S : Event I V} {k : ℕ} (hS : S.aggregateVersion = some k) :
    InMemoryEventStorage.allAfterSnapshot log id (some S) =
      (stored log id).filter fun e => k = 0 || e.aggregateVersion.any (k < ·) := by
  rcases k with _ | k
  · simp [InMemoryEventStorage.allAfterSnapshot, hS, stored]
  · simp only [InMemoryEventStorage.allAfterSnapshot, Option.bind_some, hS, stored,
      List.filter_filter]
    exact List.filter_congr fun e _ => by simp [Bool.and_comm]

omit [Truthy V] in
theorem allAfterSnapshot_some {S : Event I V} {k : ℕ} (hS : S.aggregateVersion = some k)
    (hn : Numbered (·.aggregateVersion) 0 (stored log id)) :
    InMemoryEventStorage.allAfterSnapshot log id (some S) =
      if k = 0 then stored log id else (stored log id).drop (k + 1) := by
  rw [allAfterSnapshot_filter hS]
  split_ifs with hk
  · exact List.filter_eq_self.2 fun e _ => by simp [hk]
  · rw [← Nat.sub_zero (k + 1), ← hn.filter_lt k]
    exact List.filter_congr fun e _ => by simp [hk]

omit [DecidableEq I] in
theorem isSnapshotEvent_of_mutateAll {S : Event I V} {events : List (Event I V)}
    {a a' : Aggregate I V σ} (ht : S.type = SNAPSHOT_EVENT_TYPE)
    (h : T.mutateAll a (S :: events) = some a') : isSnapshotEvent S := by
  by_contra hi
  have hm : (T.mutate a S).2 = false := by simp [mutateState, ht, hi]
  simp only [mutateAll] at h
  split at h
  · rename_i hm'
    rw [hm'] at hm
    cases hm
  · cases h

omit [DecidableEq I] in
/-- Restoring the snapshot of a state gives that state, in a new instance or over it. -/
theorem mutateState_snapshot (hT : T.RestoresSnapshots) {S : Event I V} {events : List (Event I V)}
    (ht : S.type = SNAPSHOT_EVENT_TYPE) (hi : isSnapshotEvent S)
    (hS : T.makeSnapshot (T.stateAfter (T.state id) events) = some S.payload) :
    (T.mutateState (T.state id) S).1 = T.stateAfter (T.state id) events
    ∧ (T.mutateState (T.stateAfter (T.state id) events) S).1 =
      T.stateAfter (T.state id) events := by
  obtain ⟨h1, h2⟩ := hT id events S.payload hS
  simp [mutateState, ht, hi, h1, h2]

omit [Truthy V] in
/-- Of what is stored of the aggregate, the events past the snapshot are read. -/
theorem allAfterSnapshot_thinned {p : Event I V → Prop} {events : List (Event I V)} {S : Event I V}
    {k : ℕ} (hn : Numbered (·.aggregateVersion) 0 events) (hk : S.aggregateVersion = some k)
    (hth : Thinned p events (stored log id)) :
    Thinned p (events.drop (if k = 0 then 0 else k + 1))
      (InMemoryEventStorage.allAfterSnapshot log id (some S)) := by
  rw [allAfterSnapshot_filter hk]
  refine (congrArg (Thinned p · _) ?_).mp (hth.filter _)
  split_ifs with h0
  · exact List.filter_eq_self.2 fun e _ => by simp [h0]
  · rw [← Nat.sub_zero (k + 1), ← hn.filter_lt k]
    exact List.filter_congr fun e _ => by simp [h0]

/-- The snapshot an instance is restored from, of those in the first of the events. -/
def StartsAt (events : List (Event I V)) (snapshot : Option (Event I V)) (j : ℕ) : Prop :=
  snapshot = none ∧ j = 0
  ∨ ∃ S k, snapshot = some S ∧ events[k]? = some S ∧ S.type = SNAPSHOT_EVENT_TYPE
    ∧ isSnapshotEvent S ∧ (j = k + 1 ∨ k = 0 ∧ j = 0)

/-- What a new instance has read of the first of the events, as many as its version counts, where
the storage has them with some left out: a snapshot, and then those past it. -/
def Reads (T : AggregateType I V σ) (p : Event I V → Prop) (events : List (Event I V))
    (snapshot : Option (Event I V)) (a : Aggregate I V σ) : Prop :=
  a.version ≤ events.length ∧ ∃ j l l', StartsAt events snapshot j
    ∧ events.take a.version = events.take j ++ l ∧ Thinned p l l'
    ∧ a.state = T.stateAfter (T.stateAfter (T.state a.id) snapshot.toList) (T.query l')

omit [DecidableEq I] in
/-- The last event past the snapshot has the version before the instance's. -/
theorem reads_of_thinned {p : Event I V → Prop} {events all : List (Event I V)}
    {snapshot : Option (Event I V)} {a : Aggregate I V σ} {j n : ℕ}
    (hn : Numbered (·.aggregateVersion) 0 events) (hj : StartsAt events snapshot j)
    (hth : Thinned p ((events.take n).drop j) all) (hne : all ≠ [])
    (hstate : a.state =
      T.stateAfter (T.stateAfter (T.state a.id) snapshot.toList) (T.query all))
    (h : T.mutateAll (T.create id) (snapshot.toList ++ T.query all) = some a) :
    T.Reads p events snapshot a := by
  rcases List.eq_nil_or_concat' all with rfl | ⟨l', e, rfl⟩
  · exact absurd rfl hne
  obtain ⟨l, l₂, hl, hth'⟩ := hth.of_concat
  have hlt : j < (events.take n).length := by
    by_contra hle
    rw [List.drop_eq_nil_of_le (Nat.le_of_not_lt hle)] at hl
    simp at hl
  rw [List.length_take, Nat.lt_min] at hlt
  have hsplit : events = events.take j ++ (l ++ [e]) ++ (l₂ ++ events.drop n) := by
    have htake : (events.take n).take j = events.take j := by
      rw [List.take_take, Nat.min_eq_left (Nat.le_of_lt hlt.1)]
    calc events = events.take n ++ events.drop n := (List.take_append_drop n events).symm
      _ = events.take j ++ (l ++ e :: l₂) ++ events.drop n := by
          rw [← hl, ← htake, List.take_append_drop j (events.take n)]
      _ = _ := by simp
  have hj' : (events.take j).length = j := List.length_take_of_le (Nat.le_of_lt hlt.2)
  have hv : e.aggregateVersion = some (j + l.length) := by
    rw [hsplit, Numbered.append_iff, Numbered.append_iff, Numbered.append_iff, hj'] at hn
    simpa using hn.1.2.2.1
  have hversion := mutateAll_query_concat hv h
  have htake : events.take a.version = events.take j ++ (l ++ [e]) := by
    have hcount : (events.take j ++ (l ++ [e])).length = a.version := by
      simp only [List.length_append, hj', List.length_singleton, hversion]
      omega
    calc events.take a.version
        = (events.take j ++ (l ++ [e]) ++ (l₂ ++ events.drop n)).take
          (events.take j ++ (l ++ [e])).length := by rw [hcount, ← hsplit]
      _ = events.take j ++ (l ++ [e]) := List.take_left
  refine ⟨?_, j, l ++ [e], l' ++ [e], hj, htake, hth'.append (.refl _), hstate⟩
  rw [hversion, hsplit]
  simp only [List.length_append, hj', List.length_singleton]
  omega

/-- A new instance that has got through the snapshot and the events past it has read the first of
what was emitted, as many as its version counts. -/
theorem restore_reads {p : Event I V → Prop} {snapshot : Option (Event I V)}
    {a : Aggregate I V σ} {events : List (Event I V)} {n : ℕ}
    (hn : Numbered (·.aggregateVersion) 0 events)
    (hth : Thinned p (events.take n) (stored log id))
    (hs : ∀ S, snapshot = some S →
      ∃ k, S.aggregateVersion = some k ∧ events[k]? = some S ∧ S.type = SNAPSHOT_EVENT_TYPE)
    (h : T.mutateAll (T.create id) (T.getAggregateEvents log id snapshot) = some a) :
    a.id = id ∧ a.changes = [] ∧ a.command = none ∧ T.Reads p events snapshot a := by
  obtain ⟨hid, hchanges, hcommand, hstate⟩ := mutateAll_spec h
  obtain rfl : id = a.id := hid.symm
  refine ⟨rfl, hchanges, hcommand, ?_⟩
  simp only [create] at hstate
  rw [getAggregateEvents_eq] at h hstate
  rw [stateAfter_append] at hstate
  rcases snapshot with _ | S
  · rw [allAfterSnapshot_none] at h hstate
    by_cases hne : stored log a.id = []
    · rw [hne] at h hstate
      have hv : 0 = a.version := congrArg (·.version) (Option.some.inj h)
      exact ⟨hv ▸ Nat.zero_le _, 0, [], [], .inl ⟨rfl, rfl⟩, by simp [← hv], .nil, hstate⟩
    · exact reads_of_thinned hn (.inl ⟨rfl, rfl⟩) hth hne hstate h
  · obtain ⟨k, hk, hSk, ht⟩ := hs S rfl
    have hi := isSnapshotEvent_of_mutateAll ht h
    have hpast := allAfterSnapshot_thinned (hn.take n) hk hth
    by_cases hne : InMemoryEventStorage.allAfterSnapshot log a.id (some S) = []
    · rw [hne] at h hstate
      have hv : a.version = k + 1 :=
        mutateAll_version (show T.mutateAll _ ([] ++ [S]) = some a from h) hk
      obtain ⟨hlt, -⟩ := List.getElem?_eq_some_iff.1 hSk
      exact ⟨hv ▸ hlt, k + 1, [], [], .inr ⟨S, k, rfl, hSk, ht, hi, .inl rfl⟩, by simp [hv], .nil,
        hstate⟩
    · refine reads_of_thinned hn (.inr ⟨S, k, rfl, hSk, ht, hi, ?_⟩) hpast hne hstate h
      split_ifs with h0
      · exact .inr ⟨h0, rfl⟩
      · exact .inl rfl

/-- The events of the stretch that `p` holds of leave the state as it is. -/
def Idle (T : AggregateType I V σ) (p : Event I V → Prop) (state : σ) (events : List (Event I V)) :
    Prop :=
  ∀ (j : ℕ) e, events[j]? = some e → p e →
    (T.mutateState (T.stateAfter state (events.take j)) e).1 = T.stateAfter state (events.take j)

omit [DecidableEq I] in
theorem Idle.of_append {p : Event I V → Prop} {state : σ} {events events' : List (Event I V)}
    (h : T.Idle p state (events ++ events')) :
    T.Idle p (T.stateAfter state events) events' := by
  intro j e hj he
  have hk := h (events.length + j) e (by
    rwa [List.getElem?_append_right (Nat.le_add_right ..), Nat.add_sub_cancel_left]) he
  rwa [List.take_length_add_append, stateAfter_append] at hk

omit [DecidableEq I] in
/-- Without what is idle a stretch leads to the same state. -/
theorem stateAfter_thinned {p : Event I V → Prop} {events events' : List (Event I V)}
    (h : Thinned p events events') : ∀ {state : σ}, T.Idle p state events →
      T.stateAfter state events' = T.stateAfter state events
        ∧ (T.Sufficient state events → T.Sufficient state events') := by
  induction h with
  | nil => exact fun _ => ⟨rfl, id⟩
  | keep e _ ih =>
    intro state hi
    have hi' : T.Idle p (T.stateAfter state [e]) _ := Idle.of_append hi
    exact ⟨(ih hi').1, fun hs => ⟨hs.1, (ih hi').2 hs.2⟩⟩
  | @drop e _ _ he _ ih =>
    intro state hi
    have hsame : (T.mutateState state e).1 = state := hi 0 e rfl he
    have hi' : T.Idle p (T.stateAfter state [e]) _ := Idle.of_append hi
    rw [stateAfter_cons, stateAfter_nil, hsame] at hi'
    rw [stateAfter_cons, hsame]
    exact ⟨(ih hi').1, fun hs => (ih hi').2 (hsame ▸ hs.2)⟩

variable {p : Event I V → Prop} {snapshot : Option (Event I V)} {n : ℕ}

omit [DecidableEq I] in
/-- If all that is left out of a stretch is idle, it is enough to restore what is left. -/
theorem sufficient_of_thinned {events events' : List (Event I V)} (h : Thinned p events events') :
    ∀ {state : σ}, (∀ (j : ℕ) e, events[j]? = some e → p e → T.Sufficient state (events.take j) →
        (T.mutateState (T.stateAfter state (events.take j)) e).1 =
          T.stateAfter state (events.take j)) →
      T.Sufficient state events' → T.Sufficient state events := by
  induction h with
  | nil => exact fun _ hs => hs
  | keep e _ ih =>
    intro state hidle hs
    exact ⟨hs.1, ih (fun j e' hj he' hsuf => hidle (j + 1) e' hj he' ⟨hs.1, hsuf⟩) hs.2⟩
  | @drop e _ _ he _ ih =>
    intro state hidle hs
    have hsame : (T.mutateState state e).1 = state := hidle 0 e rfl he trivial
    refine ⟨fun _ => hsame, hsame.symm ▸ ih (fun j e' hj he' hsuf => ?_) hs⟩
    have hnext := hidle (j + 1) e' hj he' ⟨fun _ => hsame, hsame.symm ▸ hsuf⟩
    rwa [List.take_succ_cons, stateAfter_cons, hsame] at hnext

/-- Restoring a snapshot of the stream over the state it was taken of changes nothing. -/
theorem TakenIn.mutateState (h : T.TakenIn log id) (hT : T.RestoresSnapshots) {S : Event I V}
    {k : ℕ} (hk : (stored log id)[k]? = some S) (ht : S.type = SNAPSHOT_EVENT_TYPE)
    (hsuf : T.Sufficient (T.state id) ((stored log id).take k)) :
    (T.mutateState (T.stateAfter (T.state id) ((stored log id).take k)) S).1 =
      T.stateAfter (T.state id) ((stored log id).take k) := by
  by_cases hi : isSnapshotEvent S
  · exact (mutateState_snapshot hT ht hi (h k S hk ht hsuf)).2
  · simp [AggregateType.mutateState, ht, hi]

theorem TakenIn.idle (h : ∀ e, p e →
      e.type = SNAPSHOT_EVENT_TYPE ∧ T.RestoresSnapshots ∧ T.TakenIn log id)
    (hsuf : T.Sufficient (T.state id) ((stored log id).take n)) :
    T.Idle p (T.state id) ((stored log id).take n) := by
  intro k S hk hS
  obtain ⟨ht, hT, htaken⟩ := h S hS
  obtain ⟨hlt, -⟩ := List.getElem?_eq_some_iff.1 hk
  rw [List.length_take, Nat.lt_min] at hlt
  have htake : ((stored log id).take n).take k = (stored log id).take k := by
    rw [List.take_take, Nat.min_eq_left (Nat.le_of_lt hlt.1)]
  rw [List.getElem?_take_of_lt hlt.1] at hk
  rw [htake]
  exact htaken.mutateState hT hk ht (htake ▸ hsuf.take k)

/-- What is restored from a snapshot is what it was taken of. -/
theorem StartsAt.state {j : ℕ} (h : StartsAt (stored log id) snapshot j)
    (hT : snapshot ≠ none → T.RestoresSnapshots ∧ T.TakenIn log id)
    (hsuf : T.Sufficient (T.state id) ((stored log id).take j)) :
    T.stateAfter (T.state id) snapshot.toList =
      T.stateAfter (T.state id) ((stored log id).take j) := by
  rcases h with ⟨rfl, rfl⟩ | ⟨S, k, rfl, hSk, htype, hi, hj⟩
  · rfl
  obtain ⟨hT, htaken⟩ := hT (by simp)
  obtain ⟨hlt, hget⟩ := List.getElem?_eq_some_iff.1 hSk
  have hsufk : T.Sufficient (T.state id) ((stored log id).take k) := by
    rcases hj with rfl | ⟨rfl, rfl⟩
    · have h := hsuf.take k
      rwa [List.take_take, Nat.min_eq_left (Nat.le_succ k)] at h
    · exact trivial
  obtain ⟨h1, h2⟩ := mutateState_snapshot hT htype hi (htaken k S hSk htype hsufk)
  rw [Option.toList_some, stateAfter_cons, stateAfter_nil, h1]
  rcases hj with rfl | ⟨rfl, rfl⟩
  · rw [← List.take_append_getElem hlt, hget, stateAfter_append, stateAfter_cons, stateAfter_nil,
      h2]
  · rfl

/-- A new instance that has read the first of the stored events is synced with them: what is left
out of them are snapshots, which change nothing. -/
theorem Reads.synced {a : Aggregate I V σ} (h : T.Reads p (stored log a.id) snapshot a)
    (hp : ∀ e, p e → e.type = SNAPSHOT_EVENT_TYPE ∧ T.RestoresSnapshots ∧ T.TakenIn log a.id)
    (hT : snapshot ≠ none → T.RestoresSnapshots ∧ T.TakenIn log a.id) : T.Synced log a := by
  obtain ⟨hle, j, l, l', hj, htake, hth, hstate⟩ := h
  refine ⟨hle, fun hsuf => ?_⟩
  have hidle := TakenIn.idle hp hsuf
  rw [htake] at hidle hsuf ⊢
  obtain ⟨h1, h2⟩ := sufficient_append.1 hsuf
  obtain ⟨hsame, hsuf'⟩ := stateAfter_thinned hth hidle.of_append
  rw [hstate, hj.state hT h1, stateAfter_query (hsuf' h2), hsame, stateAfter_append]

/-- With nothing left out a new instance is synced with all that is stored. -/
theorem restore_synced {a : Aggregate I V σ}
    (hn : Numbered (·.aggregateVersion) 0 (stored log id))
    (h : T.mutateAll (T.create id) (T.getAggregateEvents log id none) = some a) :
    a.id = id ∧ a.command = none ∧ T.Synced log a := by
  have hth : Thinned (fun _ => False) ((stored log id).take (stored log id).length)
      (stored log id) := by
    rw [List.take_length]
    exact .refl _
  obtain ⟨rfl, -, hcommand, hreads⟩ := restore_reads hn hth (by simp) h
  exact ⟨rfl, hcommand, hreads.synced (fun _ => False.elim) (absurd rfl ·)⟩

end synced

end AggregateType

end NodeCqrs
