import NodeCqrs.ForcedCommits
import NodeCqrs.Proofs.Aggregate

/-!
# Restoring from some of the event types

A class that restores from a list of event types reads the aggregate's events of these types and,
if it is of another type, the last one. What the state does not react to can be left out
(`replays_query`, with `stateAfter_query`), and the last event sets the version, so the instance is
the one all the events make.
-/

namespace NodeCqrs

variable {I V σ : Type} [Truthy V]

namespace AggregateType

variable {T : AggregateType I V σ} {events all : List (Event I V)} {state : σ}

variable (T) in
/-- The event is one that `emit` made, with whatever id it was given later. -/
def Emits (e : Event I V) : Prop :=
  ∃ (a : Aggregate I V σ) (type : String) (payload : V),
    (T.emit a type payload).2 = true ∧ e = { a.makeEvent type payload with id := e.id }

/-- The class, restored from all event types. -/
def unselective (T : AggregateType I V σ) : AggregateType I V σ := { T with restoresFrom := none }

theorem Emits.aggregateVersion {e : Event I V} (h : T.Emits e) :
    ∃ v, e.aggregateVersion = some v := by
  obtain ⟨a, type, payload, -, he⟩ := h
  exact ⟨a.version, by rw [he, Aggregate.makeEvent]⟩

theorem mutateAll_unselective : ∀ {events : List (Event I V)} {a : Aggregate I V σ},
    T.unselective.mutateAll a events = T.mutateAll a events
  | [], _ => rfl
  | event :: events, a => by
    have hm : T.unselective.mutate a event = T.mutate a event := rfl
    simp only [mutateAll, hm]
    split
    · exact mutateAll_unselective
    · rfl

/-- Every event gets through where none of the handlers throws, and only there. -/
theorem mutateAll_isSome : ∀ {events : List (Event I V)} {a : Aggregate I V σ},
    (T.mutateAll a events).isSome ↔ T.Replays a.state events
  | [], a => by simp [mutateAll, Replays]
  | event :: events, a => by
    simp only [mutateAll, Replays]
    split
    · rename_i a' hm
      have h1 : (T.mutate a event).1 = a' := by rw [hm]
      have h2 : (T.mutate a event).2 = true := by rw [hm]
      rw [mutateAll_isSome, ← h1, mutate_state, ← mutate_returned, h2]
      simp
    · rename_i hm
      have h2 : (T.mutate a event).2 = false := by rw [hm]
      rw [mutate_returned] at h2
      simp [h2]

theorem Replays.filter : ∀ {events : List (Event I V)} {state : σ}, T.Sufficient state events →
    T.Replays state events → T.Replays state (events.filter (T.restores ·))
  | [], _, _, _ => trivial
  | event :: events, state, hs, h => by
    by_cases hr : T.restores event
    · rw [List.filter_cons_of_pos hr]
      exact ⟨h.1, Replays.filter hs.2 h.2⟩
    · rw [List.filter_cons_of_neg hr]
      have ih := Replays.filter hs.2 h.2
      rwa [hs.1 (by simpa using hr)] at ih

/-- What throws is then of a type the class restores from. -/
theorem replays_of_filter : ∀ {events : List (Event I V)} {state : σ}, T.Sufficient state events →
    (∀ event ∈ events, T.restores event = false → ∀ state, (T.mutateState state event).2 = true) →
    T.Replays state (events.filter (T.restores ·)) → T.Replays state events
  | [], _, _, _, _ => trivial
  | event :: events, state, hs, hret, h => by
    have ih : ∀ state', T.Sufficient state' events →
        T.Replays state' (events.filter (T.restores ·)) → T.Replays state' events :=
      fun _ hs' => replays_of_filter hs' fun e he => hret e (List.mem_cons_of_mem _ he)
    by_cases hr : T.restores event
    · rw [List.filter_cons_of_pos hr] at h
      exact ⟨h.1, ih _ hs.2 h.2⟩
    · rw [List.filter_cons_of_neg hr] at h
      have hr' : T.restores event = false := by simpa using hr
      refine ⟨hret event List.mem_cons_self hr' state, ih _ hs.2 ?_⟩
      rwa [hs.1 hr']

theorem replays_query (hs : T.Sufficient state all) (h : T.Replays state all) :
    T.Replays state (T.query all) := by
  refine replays_append.2 ⟨h.filter hs, ?_⟩
  rw [stateAfter_filter hs]
  rcases List.eq_nil_or_concat' all with rfl | ⟨l, e, rfl⟩
  · trivial
  · rcases hr : T.restores e
    · -- the last event found the state as it is after it
      obtain ⟨-, hlast, -⟩ := sufficient_append.1 hs
      obtain ⟨-, hret, -⟩ := replays_append.1 h
      have hl := hlast hr
      simp only [List.getLast?_concat, Option.filter, hr, Bool.not_false, if_true, Option.toList,
        stateAfter_append, stateAfter_cons, stateAfter_nil, hl]
      exact ⟨hret, trivial⟩
    · simp [Option.filter, hr, Replays]

theorem mutateAll_snapshotVersion : ∀ {events : List (Event I V)} {a a' : Aggregate I V σ},
    (∀ e ∈ events, e.type ≠ SNAPSHOT_EVENT_TYPE) → T.mutateAll a events = some a' →
      a'.snapshotVersion = a.snapshotVersion
  | [], a, a', _, h => by
    obtain rfl := Option.some.inj h
    rfl
  | event :: events, a, a', hs, h => by
    simp only [mutateAll] at h
    split at h
    · rename_i b hm
      rw [mutateAll_snapshotVersion (fun e he => hs e (List.mem_cons_of_mem _ he)) h]
      have hb : (T.mutate a event).1 = b := by rw [hm]
      simp [← hb, mutate, hs event List.mem_cons_self]
    · cases h

/-- The instance the events make. -/
theorem mutateAll_eq {a a' : Aggregate I V σ} {e : Event I V} {v : ℕ}
    (hv : e.aggregateVersion = some v) (hs : ∀ e' ∈ events ++ [e], e'.type ≠ SNAPSHOT_EVENT_TYPE)
    (h : T.mutateAll a (events ++ [e]) = some a') :
    a' = { a with state := T.stateAfter a.state (events ++ [e]), version := v + 1 } := by
  obtain ⟨hid, hchanges, hcommand, hstate⟩ := mutateAll_spec h
  have hversion := mutateAll_version h hv
  have hsnapshot := mutateAll_snapshotVersion hs h
  cases a'
  simp_all

omit [Truthy V] in
theorem mem_query {e : Event I V} (h : e ∈ T.query all) : e ∈ all := by
  rcases List.mem_append.1 h with h | h
  · exact List.mem_of_mem_filter h
  · rcases hl : all.getLast? with _ | e'
    · simp [hl] at h
    · have : e = e' := by
        have := Option.mem_toList.1 h
        rw [hl] at this
        exact (Option.some.inj (Option.filter_eq_some_iff.1 this).1).symm
      exact this ▸ List.mem_of_getLast? hl

/-- What is read makes the instance that all the events make. -/
theorem mutateAll_query_eq {a a' b : Aggregate I V σ} (hs : T.Sufficient a.state all)
    (hv : ∀ e ∈ all, ∃ v, e.aggregateVersion = some v)
    (hsnap : ∀ e ∈ all, e.type ≠ SNAPSHOT_EVENT_TYPE) (h : T.mutateAll a all = some a')
    (hq : T.mutateAll a (T.query all) = some b) : b = a' := by
  rcases List.eq_nil_or_concat' all with rfl | ⟨l, e, rfl⟩
  · exact Option.some.inj (hq.symm.trans h)
  · obtain ⟨v, hv⟩ := hv e (by simp)
    obtain ⟨l', hl'⟩ := T.query_concat l e
    have hmem : ∀ e' ∈ l' ++ [e], e'.type ≠ SNAPSHOT_EVENT_TYPE := fun e' he' =>
      hsnap e' (mem_query (hl' ▸ he'))
    rw [hl'] at hq
    rw [mutateAll_eq hv hmem hq, mutateAll_eq hv hsnap h, ← hl', stateAfter_query hs]

variable [DecidableEq I] {log : List (Event I V)} {id : I} {restoresFrom : List String}

omit [Truthy V] [DecidableEq I] in
theorem restores_eq_false (hT : T.restoresFrom = some restoresFrom) {event : Event I V}
    (h : T.restores event = false) : event.type ∉ restoresFrom := by
  rcases restoresFrom with _ | ⟨type, types⟩ <;> simp_all [restores]

omit [DecidableEq I] in
theorem sufficient_of_handler (hT : T.restoresFrom = some restoresFrom)
    (hstate : ∀ (state : σ) (e : Event I V), e.type ∉ restoresFrom → (T.handler state e).1 = state) :
    ∀ {events : List (Event I V)} (state : σ),
      (∀ e ∈ events, e.type ≠ SNAPSHOT_EVENT_TYPE) → T.Sufficient state events
  | [], _, _ => trivial
  | event :: events, state, hsnap => by
    refine ⟨fun hr => ?_, sufficient_of_handler hT hstate _
      fun e he => hsnap e (List.mem_cons_of_mem _ he)⟩
    rw [mutateState, if_neg (hsnap event List.mem_cons_self)]
    exact hstate state event (restores_eq_false hT hr)

open ForcedCommits in
/-- An instance restored from the event types of the class is the one restored from all the events,
if its state reacts to no others; where a handler throws, neither or only the latter is restored. -/
theorem restoreAggregate_selective (hT : T.restoresFrom = some restoresFrom)
    (hemits : ∀ e ∈ stored log id, T.Emits e)
    (hsnap : ∀ e ∈ stored log id, e.type ≠ SNAPSHOT_EVENT_TYPE)
    (hstate : ∀ (state : σ) (e : Event I V), e.type ∉ restoresFrom →
      (T.handler state e).1 = state) :
    (∀ a, restoreAggregate T.unselective log id none = some a →
      restoreAggregate T log id none = some a)
    ∧ ((∀ (state : σ) (e : Event I V), e.type ∉ restoresFrom → (T.handler state e).2 = true) →
      restoreAggregate T log id none = restoreAggregate T.unselective log id none) := by
  have hsel : restoreAggregate T log id none =
      T.mutateAll (T.create id) (T.query (stored log id)) := by
    rw [restoreAggregate, getAggregateEvents_eq, allAfterSnapshot_none]
    rfl
  have hall : restoreAggregate T.unselective log id none =
      T.mutateAll (T.create id) (stored log id) := by
    have hq : T.unselective.query (stored log id) = stored log id := by
      simp [query, unselective, restores]
    rw [restoreAggregate, getAggregateEvents_eq, allAfterSnapshot_none, hq, mutateAll_unselective]
    rfl
  rw [hsel, hall]
  have hs : T.Sufficient (T.create id).state (stored log id) :=
    sufficient_of_handler hT hstate _ hsnap
  have hsame : ∀ {a b}, T.mutateAll (T.create id) (stored log id) = some a →
      T.mutateAll (T.create id) (T.query (stored log id)) = some b → b = a := fun ha hb =>
    mutateAll_query_eq hs (fun e he => (hemits e he).aggregateVersion) hsnap ha hb
  have hfull : ∀ a, T.mutateAll (T.create id) (stored log id) = some a →
      T.mutateAll (T.create id) (T.query (stored log id)) = some a := by
    intro a ha
    have hr := replays_query hs (mutateAll_isSome.1 (Option.isSome_of_eq_some ha))
    obtain ⟨b, hb⟩ := Option.isSome_iff_exists.1 (mutateAll_isSome.2 hr)
    rw [hb, hsame ha hb]
  refine ⟨hfull, fun hret => ?_⟩
  rcases hq : T.mutateAll (T.create id) (T.query (stored log id)) with _ | b
  · rcases ha : T.mutateAll (T.create id) (stored log id) with _ | a
    · rfl
    · rw [hfull a ha] at hq
      cases hq
  · have hr : T.Replays (T.create id).state (stored log id) := by
      refine replays_of_filter hs (fun e he hf state => ?_)
        (replays_append.1 (mutateAll_isSome.1 (Option.isSome_of_eq_some hq))).1
      rw [mutateState, if_neg (hsnap e he)]
      exact hret state e (restores_eq_false hT hf)
    obtain ⟨a, ha⟩ := Option.isSome_iff_exists.1 (mutateAll_isSome.2 hr)
    rw [ha, hsame ha hq]

/-- An aggregate that counts its events of one type. -/
def tally : AggregateType String ℕ ℕ where
  state _ := 0
  handler state e := (if e.type = "added" then state + 1 else state, true)
  makeSnapshot state := some state
  restoreSnapshot _ payload := some payload
  restoresFrom := some ["added"]

/-- Its events, the last of them not restored from. -/
def tallied : List (Event String ℕ) :=
  [{ type := "added", aggregateId := some "a", aggregateVersion := some 0, payload := 0 },
    { type := "renamed", aggregateId := some "a", aggregateVersion := some 1, payload := 0 }]

open ForcedCommits in
theorem restoreAggregate_tallied :
    (∃ a, restoreAggregate tally tallied "a" none = some a ∧ a.state = 1 ∧ a.version = 2)
    ∧ restoreAggregate tally tallied "a" none = restoreAggregate tally.unselective tallied "a" none :=
  ⟨⟨_, rfl, rfl, rfl⟩, (restoreAggregate_selective (T := tally) rfl
    (by
      have hemits : tally.Emits tallied[0] ∧ tally.Emits tallied[1] :=
        ⟨⟨{ id := "a", state := 0 }, "added", 0, rfl, rfl⟩,
          ⟨{ id := "a", version := 1, state := 0 }, "renamed", 0, rfl, rfl⟩⟩
      simpa [stored, tallied] using hemits)
    (by decide)
    (fun state e he => if_neg fun ht => he (by simp [ht]))).2 fun _ _ _ => rfl⟩

end AggregateType

end NodeCqrs
