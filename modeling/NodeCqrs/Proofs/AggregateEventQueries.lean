import Mathlib.Data.List.Induction
import NodeCqrs.Proofs.SqliteAggregateEvents

/-!
# `getAggregateEvents` of two storages

`InMemoryEventStorage` takes a snapshot of version 0 for none, and compares aggregate ids as strings;
`SqliteEventStorage` compares their bytes and drops an empty `sagaOrigins` and an origin under
`__proto__`. They yield the same just where none of this makes a difference to an event that is
wanted (`getAggregateEvents_agree_iff`).
-/

namespace NodeCqrs

variable {V : Type}

namespace AggregateEventsQueryParams

variable {I : Type} {log all : List (Event I V)} {options : AggregateEventsQueryParams I V}

/-- Of these events, the options ask for this one. -/
def Wants (options : AggregateEventsQueryParams I V) (all : List (Event I V)) (e : Event I V) :
    Prop :=
  e ∈ all ∧ ∀ eventTypes ∈ options.eventTypes,
    e.type ∈ eventTypes ∨ options.tailLast ∧ all.getLast? = some e

theorem mem_pick {e : Event I V} : e ∈ options.pick all ↔ options.Wants all e := by
  unfold pick Wants
  rcases options.eventTypes with _ | eventTypes
  · simp
  · rcases hl : all.getLast? with _ | tail
    · obtain rfl := List.getLast?_eq_none_iff.1 hl
      simp
    · have htail := List.mem_of_getLast? hl
      cases options.tailLast with
      | false => simp
      | true =>
        simp only [List.mem_append, List.mem_filter, if_true, Option.mem_toList,
          Option.filter_eq_some_iff, decide_eq_true_eq, Option.mem_def, Option.some.injEq,
          forall_eq', true_and]
        constructor
        · rintro (⟨he, ht⟩ | ⟨rfl, -⟩)
          · exact ⟨he, .inl ht⟩
          · exact ⟨htail, .inr rfl⟩
        · rintro ⟨he, ht | rfl⟩
          · exact .inl ⟨he, ht⟩
          · by_cases ht : tail.type ∈ eventTypes
            · exact .inl ⟨he, ht⟩
            · exact .inr ⟨rfl, ht⟩

/-- The last of the events with a property is that of those with another, if each has the other's. -/
theorem getLast?_filter_congr {α : Type} {p q : α → Bool} : ∀ (l : List α),
    (∀ a, (l.filter p).getLast? = some a → q a = true) →
    (∀ a, (l.filter q).getLast? = some a → p a = true) →
      (l.filter p).getLast? = (l.filter q).getLast? := by
  intro l
  induction l using List.reverseRecOn with
  | nil => simp
  | append_singleton l a ih =>
    intro hp hq
    by_cases hpa : p a = true
    · have hqa := hp a (by simp [hpa])
      simp [hpa, hqa]
    · have hqa : ¬ q a = true := fun hqa => hpa (hq a (by simp [hqa]))
      simp only [List.filter_append, List.filter_cons_of_neg hpa, List.filter_cons_of_neg hqa,
        List.filter_nil, List.append_nil] at hp hq ⊢
      exact ih hp hq

theorem wants_getLast? {e : Event I V} (h : all.getLast? = some e)
    (ht : options.tailLast = true) : options.Wants all e :=
  ⟨List.mem_of_getLast? h, fun _ _ => .inr ⟨ht, h⟩⟩

theorem wants_type {e : Event I V} (h : e ∈ all)
    (ht : ∀ eventTypes ∈ options.eventTypes, e.type ∈ eventTypes) : options.Wants all e :=
  ⟨h, fun eventTypes hmem => .inl (ht eventTypes hmem)⟩

/-- What is picked of the events with a property and of those with another is the same if what is
wanted of each has both. -/
theorem pick_filter_congr {p q : Event I V → Bool}
    (hp : ∀ e, options.Wants (log.filter p) e → q e = true)
    (hq : ∀ e, options.Wants (log.filter q) e → p e = true) :
    options.pick (log.filter p) = options.pick (log.filter q) := by
  have htypes : ∀ r : Event I V → Bool, (∀ e ∈ log, r e = true → ∀ eventTypes ∈ options.eventTypes,
      e.type ∈ eventTypes) → (log.filter p).filter r = (log.filter q).filter r := by
    intro r hr
    rw [List.filter_filter, List.filter_filter]
    refine List.filter_congr fun e he => ?_
    by_cases hre : r e = true
    · have hpq : p e = true ↔ q e = true :=
        ⟨fun h => hp e (wants_type (List.mem_filter.2 ⟨he, h⟩) (hr e he hre)),
          fun h => hq e (wants_type (List.mem_filter.2 ⟨he, h⟩) (hr e he hre))⟩
      rw [hre, Bool.true_and, Bool.true_and, Bool.eq_iff_iff, hpq]
    · simp [hre]
  unfold pick
  rcases ht : options.eventTypes with _ | eventTypes
  · simpa using htypes (fun _ => true) (by simp [ht])
  · have hsel := htypes (fun e => decide (e.type ∈ eventTypes)) (by simp [ht])
    cases hlast : options.tailLast with
    | false => simpa using hsel
    | true =>
      have htail := getLast?_filter_congr log (fun e he => hp e (wants_getLast? he hlast))
        fun e he => hq e (wants_getLast? he hlast)
      simp only [if_true, hsel, htail]

end AggregateEventsQueryParams

open AggregateEventsQueryParams

namespace InMemoryEventStorage

variable {I : Type} [DecidableEq I]

/-- An event of the aggregate past the version, unless that is 0. -/
def past (aggregateId : I) (afterVersion : Option ℕ) (e : Event I V) : Bool :=
  e.aggregateId = some aggregateId
    && afterVersion.all fun v => v = 0 || e.aggregateVersion.any (v < ·)

theorem getAggregateEvents_eq_pick (log : List (Event I V)) (aggregateId : I)
    (options : AggregateEventsQueryParams I V) :
    getAggregateEvents log aggregateId options = options.pick (log.filter
      (past aggregateId (options.snapshot.bind (·.aggregateVersion)))) := by
  have hall : allAfterSnapshot log aggregateId options.snapshot = log.filter
      (past aggregateId (options.snapshot.bind (·.aggregateVersion))) := by
    unfold allAfterSnapshot past
    split
    · rename_i hv
      simp [hv]
    · rename_i hv
      simp [hv]
    · rename_i v hne hv
      simp [hv, show v ≠ 0 from hne]
  rcases ht : options.eventTypes with _ | eventTypes <;>
    simp only [getAggregateEvents, hall, pick, ht]

end InMemoryEventStorage

open SqliteEventStorage

variable {s : SqliteEventStorage V} {log : List (Event String V)} {aggregateId : String}
  {options : AggregateEventsQueryParams String V}

/-- The options want no event of the aggregate that has an empty `sagaOrigins`, an origin under
`__proto__` or, past a snapshot of version 0, a version not above it, and no event of an aggregate of
another id with the same bytes. -/
structure Comparable (log : List (Event String V)) (aggregateId : String)
    (options : AggregateEventsQueryParams String V) : Prop where
  origins : ∀ e, options.Wants (log.filter (InMemoryEventStorage.past aggregateId
    (options.snapshot.bind (·.aggregateVersion)))) e → e.sagaOrigins ≠ some [] ∧ e.NoProto
  aboveZero : ∀ e, options.Wants (log.filter (InMemoryEventStorage.past aggregateId
    (options.snapshot.bind (·.aggregateVersion)))) e →
      options.snapshot.bind (·.aggregateVersion) = some 0 → ∃ v ∈ e.aggregateVersion, 0 < v
  spelling : ∀ e, options.Wants (log.filter (past (guid aggregateId)
    (options.snapshot.bind (·.aggregateVersion)))) e → e.aggregateId = some aggregateId

theorem past_of_inMemory {afterVersion : Option ℕ} {e : Event String V}
    (h : InMemoryEventStorage.past aggregateId afterVersion e = true)
    (h0 : afterVersion = some 0 → ∃ v ∈ e.aggregateVersion, 0 < v) :
    past (guid aggregateId) afterVersion e = true := by
  simp only [InMemoryEventStorage.past, past, Bool.and_eq_true, decide_eq_true_eq] at h ⊢
  obtain ⟨hid, hv⟩ := h
  refine ⟨by rw [hid, Option.map_some], ?_⟩
  rcases afterVersion with _ | _ | v
  · rfl
  · obtain ⟨w, hw, hlt⟩ := h0 rfl
    rw [Option.mem_def] at hw
    simpa [hw] using hlt
  · simpa using hv

theorem inMemory_of_past {afterVersion : Option ℕ} {e : Event String V}
    (h : past (guid aggregateId) afterVersion e = true) (hid : e.aggregateId = some aggregateId) :
    InMemoryEventStorage.past aggregateId afterVersion e = true := by
  simp only [InMemoryEventStorage.past, past, Bool.and_eq_true, decide_eq_true_eq] at h ⊢
  refine ⟨hid, ?_⟩
  rcases afterVersion with _ | v
  · rfl
  · have hv := h.2
    rw [Option.all_some] at hv
    simp [hv]

theorem dropEmptyOrigins_eq_iff {e : Event String V} :
    e.dropEmptyOrigins = e ↔ e.sagaOrigins ≠ some [] := by
  obtain ⟨id, type, aggregateId, aggregateVersion, sagaOrigins, payload, context⟩ := e
  rcases sagaOrigins with _ | _ | ⟨p, origins⟩ <;> simp [Event.dropEmptyOrigins, Option.filter]

theorem readBack_eq_iff {e : Event String V} :
    e.readBack = e ↔ e.sagaOrigins ≠ some [] ∧ e.NoProto := by
  rw [← dropEmptyOrigins_eq_iff]
  constructor
  · intro h
    -- what is read back has no empty `sagaOrigins`
    have hdrop : e.dropEmptyOrigins = e := by
      rw [dropEmptyOrigins_eq_iff]
      intro hnil
      have horigins := congrArg Event.sagaOrigins h
      simp [Event.readBack, Event.dropEmptyOrigins, hnil, Option.filter] at horigins
    exact ⟨hdrop, Event.readBack_eq_drop_iff.1 (h.trans hdrop.symm)⟩
  · rintro ⟨hdrop, hproto⟩
    exact (Event.readBack_eq_drop_iff.2 hproto).trans hdrop

/-- Both storages yield the same of a log if and only if what tells them apart concerns no event
that is wanted. -/
theorem getAggregateEvents_agree_iff (h : Stored s log) (hguid : ∀ e ∈ log, IsGuidEvent e)
    (aggregateId : String) (options : AggregateEventsQueryParams String V) :
    InMemoryEventStorage.getAggregateEvents log aggregateId options
      = s.getAggregateEvents aggregateId options ↔ Comparable log aggregateId options := by
  have hinj : ∀ e ∈ log, ∀ e' ∈ log, idOf e = idOf e' → e = e' := fun e he e' he' =>
    List.inj_on_of_nodup_map h.holds.nodup he he'
  have hlog : ∀ {p : Event String V → Bool} {e}, options.Wants (log.filter p) e →
      e ∈ log ∧ p e = true := fun hw => List.mem_filter.1 hw.1
  have hstored : ∀ e, options.Wants (log.filter (past (guid aggregateId)
      (options.snapshot.bind (·.aggregateVersion)))) e →
        SqliteEventStorage.stored e = e.readBack := fun e hw =>
    stored_eq (hguid e (hlog hw).1)
  rw [InMemoryEventStorage.getAggregateEvents_eq_pick, h.holds.getAggregateEvents,
    List.map_congr_left fun e he => hstored e (mem_pick.1 he)]
  constructor
  · intro heq
    -- what is wanted of the one log is wanted of the other, unchanged
    have hmem : ∀ e, options.Wants (log.filter (InMemoryEventStorage.past aggregateId
        (options.snapshot.bind (·.aggregateVersion)))) e → e.readBack = e
          ∧ options.Wants (log.filter (past (guid aggregateId)
            (options.snapshot.bind (·.aggregateVersion)))) e := by
      intro e hw
      have he := mem_pick.2 hw
      rw [heq] at he
      obtain ⟨e', he', rfl⟩ := List.mem_map.1 he
      have hw' := mem_pick.1 he'
      have hsame := hinj _ (hlog hw).1 e' (hlog hw').1 rfl
      rw [hsame]
      exact ⟨hsame, hw'⟩
    refine ⟨fun e hw => readBack_eq_iff.1 (hmem e hw).1, fun e hw h0 => ?_,
      fun e hw => ?_⟩
    · have hp := (hlog (hmem e hw).2).2
      simp only [past, h0, Option.all_some, Bool.and_eq_true, Option.any_eq_true] at hp
      obtain ⟨-, v, hv, hlt⟩ := hp
      exact ⟨v, hv, by simpa using hlt⟩
    · have he : e.readBack ∈ options.pick (log.filter (InMemoryEventStorage.past aggregateId
          (options.snapshot.bind (·.aggregateVersion)))) := by
        rw [heq]
        exact List.mem_map_of_mem (mem_pick.2 hw)
      have hp := (hlog (mem_pick.1 he)).2
      simp only [InMemoryEventStorage.past, Bool.and_eq_true, decide_eq_true_eq] at hp
      exact hp.1
  · intro hc
    have hpick := pick_filter_congr
      (fun e hw => past_of_inMemory (hlog hw).2 (hc.aboveZero e hw))
      fun e hw => inMemory_of_past (hlog hw).2 (hc.spelling e hw)
    refine hpick.trans ((List.map_congr_left fun e he => ?_).trans (List.map_id _)).symm
    rw [← hpick] at he
    exact readBack_eq_iff.2 (hc.origins e (mem_pick.1 he))

/-- A snapshot of version 0. -/
def snapshotOfZero : Event String ℕ :=
  { type := SNAPSHOT_EVENT_TYPE, aggregateId := some "b0000000000000000000000000000001"
    aggregateVersion := some 0, payload := 1 }

/-- An aggregate whose first version is created with no `sagaOrigins`. -/
def founded : List (Event String ℕ) := [{ created with sagaOrigins := none }]

theorem founded_isGuidEvent : ∀ e ∈ founded, IsGuidEvent e := by
  have h : IsGuidEvent { created with sagaOrigins := none } :=
    ⟨created_isGuidEvent.id, created_isGuidEvent.aggregateId, List.nodup_nil, by simp⟩
  simpa [founded] using h

theorem getAggregateEvents_agree_founded : ∃ s, Stored s founded
    ∧ (InMemoryEventStorage.getAggregateEvents founded "b0000000000000000000000000000001"
        { snapshot := some snapshotOfZero }
      = s.getAggregateEvents "b0000000000000000000000000000001"
        { snapshot := some snapshotOfZero }
      ↔ Comparable founded "b0000000000000000000000000000001"
        { snapshot := some snapshotOfZero }) := by
  obtain ⟨s, hs⟩ : ∃ s, commitEvents {} founded false = .ok s := ⟨_, rfl⟩
  exact ⟨s, Stored.commitEvents .empty hs,
    getAggregateEvents_agree_iff (Stored.commitEvents .empty hs) founded_isGuidEvent _ _⟩

/-- Past a snapshot of version 0, the one storage yields the event of version 0 and the other does
not. -/
theorem getAggregateEvents_agree_fails :
    ¬ ∀ (s : SqliteEventStorage ℕ) (log : List (Event String ℕ)), Stored s log →
      (∀ e ∈ log, IsGuidEvent e) → ∀ aggregateId, IsGuid aggregateId → ∀ options,
        InMemoryEventStorage.getAggregateEvents log aggregateId options
          = s.getAggregateEvents aggregateId options := by
  intro hall
  obtain ⟨s, hs, hnone⟩ : ∃ s, commitEvents {} founded false = .ok s
      ∧ s.getAggregateEvents "b0000000000000000000000000000001"
        { snapshot := some snapshotOfZero } = [] := ⟨_, rfl, by decide⟩
  have heq := hall s founded (Stored.commitEvents .empty hs) founded_isGuidEvent
    "b0000000000000000000000000000001" (isGuid_of_all (by decide))
    { snapshot := some snapshotOfZero }
  rw [hnone] at heq
  exact absurd heq (by decide)

end NodeCqrs
