import NodeCqrs.EventsByTypes
import NodeCqrs.Proofs.SqliteEventStorage
import NodeCqrs.Proofs.SqliteGuid

/-!
# Each event once

Where events are committed under ids of their own, what `InMemoryEventStorage.getEventsByTypes`
finds after an event is what follows it in the log (`InMemoryEventStorage.lawful`),
and in `SqliteEventStorage` the primary key sees to that, whatever the ids
(`SqliteEventStorage.lawful`). So a consumer that reads after the last event that it has got misses
none of its types and gets none twice.
-/

namespace NodeCqrs

namespace InMemoryEventStorage

variable {I V : Type} {events : List (Event I V)} {eventTypes : Option (List String)}
  {lastEventId : Option String}

/-- The events have ids of their own, those that have any. -/
def DistinctIds (events : List (Event I V)) : Prop := (events.filterMap (·.id)).Nodup

instance : Decidable (DistinctIds events) := inferInstanceAs (Decidable (List.Nodup _))

/-- The events of a commit have ids that no others have. -/
def NewIds (s : InMemoryEventStorage I V) (call : CommitEvents I V) : Prop :=
  DistinctIds (s.events ++ call.events)

instance (s : InMemoryEventStorage I V) (call : CommitEvents I V) : Decidable (NewIds s call) :=
  inferInstanceAs (Decidable (DistinctIds _))

/-- The event is of the types, if there are any to be of. -/
def isWanted (eventTypes : Option (List String)) (event : Event I V) : Bool :=
  eventTypes.all (event.type ∈ ·)

theorem eventsByTypes_found : ∀ events : List (Event I V),
    eventsByTypes eventTypes lastEventId true events = events.filter (isWanted eventTypes)
  | [] => rfl
  | event :: events => by
    rw [eventsByTypes, eventsByTypes_found events, List.filter_cons]
    rfl

theorem eventsByTypes_from {event : Event I V} (he : event.id = lastEventId)
    {post : List (Event I V)} : ∀ {pre : List (Event I V)},
    (∀ e ∈ pre, e.id ≠ lastEventId) →
      eventsByTypes eventTypes lastEventId false (pre ++ event :: post)
        = post.filter (isWanted eventTypes)
  | [], _ => by
    rw [List.nil_append, eventsByTypes, decide_eq_true he, eventsByTypes_found]
  | e :: pre, hpre => by
    rw [List.cons_append, eventsByTypes, decide_eq_false (hpre e (List.mem_cons_self ..))]
    exact eventsByTypes_from he fun e' he' => hpre e' (List.mem_cons_of_mem e he')

theorem getEventsByTypes_all : getEventsByTypes events eventTypes none =
    .ok (events.filter (isWanted eventTypes)) := by
  exact congrArg Except.ok (eventsByTypes_found events)

theorem getEventsByTypes_after {pre post found : List (Event I V)} {event : Event I V}
    (hd : DistinctIds (pre ++ event :: post))
    (h : getEventsByTypes (pre ++ event :: post) eventTypes (some event) = .ok found) :
    found = post.filter (isWanted eventTypes) := by
  rcases hid : event.id with _ | id
  · simp [getEventsByTypes, hid, assertString, bind, Except.bind] at h
  by_cases hempty : id = ""
  · simp [getEventsByTypes, hid, hempty, assertString, bind, Except.bind] at h
  have hpre : ∀ e ∈ pre, e.id ≠ some id := by
    intro e he hide
    rw [DistinctIds, List.filterMap_append, List.filterMap_cons_some hid,
      List.nodup_append] at hd
    exact hd.2.2 id (List.mem_filterMap.2 ⟨e, he, hide⟩) id (List.mem_cons_self ..) rfl
  have hfound : eventsByTypes eventTypes (some id) false (pre ++ event :: post) =
      post.filter (isWanted eventTypes) := eventsByTypes_from hid hpre
  simp [getEventsByTypes, hid, hempty, assertString, bind, Except.bind, pure, Except.pure, truthy,
    hfound] at h
  exact h.symm

variable [DecidableEq I]

theorem afterCall_events (s : InMemoryEventStorage I V) (call : CommitEvents I V) :
    (s.afterCall call).events = s.events ++ call.events ∨ s.afterCall call = s := by
  rcases hc : s.commitEvents call.events call.ignoreConcurrencyError with error | s'
  · exact .inr (by rw [afterCall, hc])
  · refine .inl ?_
    rw [afterCall, hc]
    rw [commitEvents] at hc
    split at hc
    · cases hc
    · exact congrArg InMemoryEventStorage.events (Except.ok.inj hc).symm

/-- With ids of their own, events are found by what was last got. -/
theorem lawful : Following.Lawful (followed I V) isWanted (DistinctIds ·.events) NewIds where
  init s hs := by
    obtain rfl : s = {} := hs
    exact List.nodup_nil
  inv s call hi hn := by
    change DistinctIds (s.afterCall call).events
    rcases afterCall_events s call with he | he
    · rw [he]
      exact hn
    · rw [he]
      exact hi
  grows s call _ _ := by
    change s.events <+: (s.afterCall call).events
    rcases afterCall_events s call with he | he
    · exact he ▸ List.prefix_append ..
    · exact he.symm ▸ List.prefix_rfl
  give _ _ _ _ _ _ := rfl
  read_none s eventTypes items _ hr := by
    change (getEventsByTypes s.events eventTypes none).toOption = some items at hr
    rw [getEventsByTypes_all] at hr
    exact (Option.some.inj hr).symm
  read_some s eventTypes items pre item post hi hlog hr := by
    change (getEventsByTypes s.events eventTypes (some item)).toOption = some items at hr
    obtain hlog : s.events = pre ++ item :: post := hlog
    rw [hlog] at hi hr
    rcases hfound : getEventsByTypes (pre ++ item :: post) eventTypes (some item) with error | found
    · rw [hfound] at hr
      cases hr
    · rw [hfound] at hr
      exact (Option.some.inj hr) ▸ getEventsByTypes_after hi hfound

/-- Whoever reads the events of some types after the last one that it has got, again and again and
while events are committed, gets each of them once and in the order they were committed, up to the
end of what it has read. -/
theorem follows_of_newIds {eventTypes : ℕ → Option (List String)}
    {s : Following.Sys (InMemoryEventStorage I V) (Event I V) (Event I V)}
    (h : (Following.machine (followed I V) eventTypes).ReachIf (Following.Commits NewIds) s)
    (f : ℕ) : Following.Follows (followed I V) eventTypes isWanted s f :=
  lawful.follows h f

section Runs

def placed (id type : String) : Event String ℕ := { id := some id, type, payload := 0 }

/-- An event is committed while a consumer is at the first it wants. It stops there and reads on. -/
def resumed : List (Following.Action (CommitEvents String ℕ)) :=
  [.commit { events := [placed "1" "a", placed "2" "b"] }, .read 0, .next 0,
    .commit { events := [placed "3" "a"] }, .stop 0, .read 0, .next 0, .next 0]

theorem follows_of_newIds_resumed :
    ∃ s, (Following.machine (followed String ℕ) fun _ => some ["a"]).run { store := {} } resumed
        = some s
      ∧ (s.followers 0).received = [placed "1" "a", placed "3" "a"]
      ∧ Following.Follows (followed String ℕ) (fun _ => some ["a"]) isWanted s 0 := by
  obtain ⟨s, hs, hr⟩ : ∃ s, (Following.machine (followed String ℕ) fun _ => some ["a"]).run
      { store := {} } resumed = some s
      ∧ (s.followers 0).received = [placed "1" "a", placed "3" "a"] := ⟨_, rfl, rfl⟩
  have h0 : (Following.machine (followed String ℕ) fun _ => some ["a"]).Init { store := {} } :=
    ⟨rfl, fun _ => rfl⟩
  exact ⟨s, hs, hr, follows_of_newIds (Machine.ReachIf.run (.init h0) (by decide) hs) 0⟩

end Runs

end InMemoryEventStorage

namespace SqliteEventStorage

variable {V : Type} {s s' : SqliteEventStorage V} {log : List (Event String V)}

/-- A row is that of an event of the log, at the event's place. -/
theorem Holds.row (h : Holds s log) {pre post : List (EventRow V)} {row : EventRow V}
    (hlog : s.events = pre ++ row :: post) :
    ∃ e, log[pre.length]? = some e ∧ row = rowOf (pre.length + 1) e := by
  have hrow : s.events[pre.length]? = some row := by rw [hlog]; simp
  rw [h.events, List.getElem?_map, List.getElem?_zipIdx] at hrow
  obtain ⟨⟨e, n⟩, hp, rfl⟩ := Option.map_eq_some_iff.1 hrow
  obtain ⟨e', he', hp⟩ := Option.map_eq_some_iff.1 hp
  obtain ⟨rfl, rfl⟩ := Prod.mk.inj hp
  exact ⟨e', he', by rw [Nat.add_comm]⟩

theorem Holds.rowid (h : Holds s log) {pre post : List (EventRow V)} {row : EventRow V}
    (hlog : s.events = pre ++ row :: post) : row.rowid = pre.length + 1 := by
  obtain ⟨e, -, rfl⟩ := h.row hlog
  rfl

/-- The rows after one are those past its `rowid`. -/
theorem Holds.filter_rowid (h : Holds s log) {pre post : List (EventRow V)}
    (hlog : s.events = pre ++ post) : s.events.filter (pre.length < ·.rowid) = post := by
  have hpre : ∀ row ∈ pre, ¬ pre.length < row.rowid := by
    intro row hrow
    obtain ⟨l, l', rfl⟩ := List.append_of_mem hrow
    rw [h.rowid (hlog.trans (by rw [List.append_assoc, List.cons_append]))]
    simp
  have hpost : ∀ row ∈ post, pre.length < row.rowid := by
    intro row hrow
    obtain ⟨l, l', rfl⟩ := List.append_of_mem hrow
    have hrowid : row.rowid = (pre ++ l).length + 1 :=
      h.rowid (hlog.trans (by rw [List.append_assoc]))
    rw [hrowid, List.length_append]
    omega
  rw [hlog, List.filter_append, List.filter_eq_nil_iff.2 (by simpa using hpre),
    List.filter_eq_self.2 (by simpa using hpost), List.nil_append]

/-- The row is of an event of the types. -/
def isWanted (eventTypes : List String) (row : EventRow V) : Bool := row.data.type ∈ eventTypes

theorem getEventsByTypes_after (h : Holds s log) {eventTypes : List String}
    {pre post found : List (EventRow V)} {row : EventRow V} (hlog : s.events = pre ++ row :: post)
    (hr : s.getEventsByTypes eventTypes (some (s.reconstructEvent row)) = .ok found) :
    found = post.filter (isWanted eventTypes) := by
  obtain ⟨e, he, rfl⟩ := h.row hlog
  have hrowid : s.getRowid (guid (bufferToGuid (idOf e))) = some (pre.length + 1) := by
    rw [idOf, guid_bufferToGuid]
    exact h.getRowid he
  have hpast : s.events.filter ((pre ++ [rowOf (pre.length + 1) e]).length < ·.rowid) = post :=
    h.filter_rowid (hlog.trans (by simp))
  rw [h.reconstructEvent (List.mem_of_getElem? he)] at hr
  by_cases hempty : bufferToGuid (idOf e) = ""
  · simp [SqliteEventStorage.getEventsByTypes, stored, hempty, assertString, bind,
      Except.bind] at hr
  · simp only [SqliteEventStorage.getEventsByTypes, stored, assertString, bind, Except.bind, pure,
      Except.pure, Option.bind_some, Option.getD_some, hempty, hrowid] at hr
    rw [← Except.ok.inj hr, ← hpast, List.length_append]
    rfl

theorem getEventsByTypes_all (h : Holds s log) (eventTypes : List String) :
    s.getEventsByTypes eventTypes none = .ok (s.events.filter (isWanted eventTypes)) := by
  have hall : s.events.filter (0 < ·.rowid) = s.events := h.filter_rowid (List.nil_append _).symm
  simp only [SqliteEventStorage.getEventsByTypes, Option.bind_none, hall]
  rfl

/-- A call appends to the log, or is rejected. -/
theorem Holds.afterCall (h : Holds s log) (call : CommitCall V) :
    ∃ log', log <+: log' ∧ Holds (s.afterCall call) log' := by
  rcases hc : s.commitEvents call.events call.ignoreConcurrencyError with error | s'
  · exact ⟨log, List.prefix_rfl, by rw [SqliteEventStorage.afterCall, hc]; exact h⟩
  · refine ⟨log ++ call.events, List.prefix_append .., ?_⟩
    rw [SqliteEventStorage.afterCall, hc]
    exact h.commitEvents hc

theorem Holds.events_grow {log' : List (Event String V)} (h : Holds s log) (h' : Holds s' log')
    (hlog : log <+: log') : s.events <+: s'.events := by
  obtain ⟨rest, rfl⟩ := hlog
  rw [h.events, h'.events, List.zipIdx_append, List.map_append]
  exact List.prefix_append ..

/-- What is committed later leaves the events that are read as they are. -/
theorem Holds.reconstructEvent_eq {log' : List (Event String V)} (h : Holds s log)
    (h' : Holds s' log') (hlog : log <+: log') {row : EventRow V} (hrow : row ∈ s.events) :
    s'.reconstructEvent row = s.reconstructEvent row := by
  obtain ⟨pre, post, hs⟩ := List.append_of_mem hrow
  obtain ⟨e, he, rfl⟩ := h.row hs
  have he := List.mem_of_getElem? he
  rw [h.reconstructEvent he, h'.reconstructEvent (hlog.subset he)]

/-- The primary key keeps the ids apart, so events are found by what was last got. -/
theorem lawful : Following.Lawful (followed V) isWanted (fun s => ∃ log, Holds s log)
    fun _ _ => True where
  init s hs := by
    obtain rfl : s = {} := hs
    exact ⟨[], rfl, rfl, List.nodup_nil⟩
  inv s call hi _ := by
    obtain ⟨log, h⟩ := hi
    obtain ⟨log', -, h'⟩ := h.afterCall call
    exact ⟨log', h'⟩
  grows s call hi _ := by
    obtain ⟨log, h⟩ := hi
    obtain ⟨log', hlog, h'⟩ := h.afterCall call
    exact h.events_grow h' hlog
  give s call row hi _ hrow := by
    obtain ⟨log, h⟩ := hi
    obtain ⟨log', hlog, h'⟩ := h.afterCall call
    exact h.reconstructEvent_eq h' hlog hrow
  read_none s eventTypes items hi hr := by
    obtain ⟨log, h⟩ := hi
    change (s.getEventsByTypes eventTypes none).toOption = some items at hr
    rw [getEventsByTypes_all h] at hr
    exact (Option.some.inj hr).symm
  read_some s eventTypes items pre row post hi hlog hr := by
    obtain ⟨log, h⟩ := hi
    change (s.getEventsByTypes eventTypes (some (s.reconstructEvent row))).toOption = some items
      at hr
    rcases hfound : s.getEventsByTypes eventTypes (some (s.reconstructEvent row))
      with error | found
    · rw [hfound] at hr
      cases hr
    · rw [hfound] at hr
      exact (Option.some.inj hr) ▸ getEventsByTypes_after h hlog hfound

/-- Whoever reads the events of some types after the last one that it has got, again and again and
while events are committed, gets each of them once and in the order of the `rowid`s, up to the end
of what it has read. -/
theorem follows_of_reach {eventTypes : ℕ → List String}
    {s : Following.Sys (SqliteEventStorage V) (Event String V) (EventRow V)}
    (h : (Following.machine (followed V) eventTypes).Reach s) (f : ℕ) :
    Following.Follows (followed V) eventTypes isWanted s f := by
  refine lawful.follows (h.mono fun s a _ => ?_) f
  cases a <;> exact trivial

section Runs

open InMemoryEventStorage (placed)

/-- Two events are committed while a consumer is at the first it wants, one under a taken id. -/
def resumed : List (Following.Action (CommitCall ℕ)) :=
  [.commit { events := [placed "0a" "a", placed "0b" "b"] }, .read 0, .next 0,
    .commit { events := [placed "0b" "a"] }, .commit { events := [placed "0c" "a"] }, .stop 0,
    .read 0, .next 0, .next 0]

theorem follows_of_reach_resumed :
    ∃ s, (Following.machine (followed ℕ) fun _ => ["a"]).run { store := {} } resumed = some s
      ∧ (s.followers 0).received = [placed "0a" "a", placed "0c" "a"]
      ∧ Following.Follows (followed ℕ) (fun _ => ["a"]) isWanted s 0 := by
  obtain ⟨s, hs, hr⟩ : ∃ s, (Following.machine (followed ℕ) fun _ => ["a"]).run
      { store := {} } resumed = some s
      ∧ (s.followers 0).received = [placed "0a" "a", placed "0c" "a"] := ⟨_, rfl, rfl⟩
  have h0 : (Following.machine (followed ℕ) fun _ => ["a"]).Init { store := {} } :=
    ⟨rfl, fun _ => rfl⟩
  exact ⟨s, hs, hr, follows_of_reach (Machine.reach_of_run h0 hs) 0⟩

end Runs

end SqliteEventStorage

end NodeCqrs
