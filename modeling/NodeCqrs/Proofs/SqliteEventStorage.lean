import Mathlib.Data.List.Nodup
import Mathlib.Tactic.Common
import NodeCqrs.Sqlite.EventStorage

/-!
# What the tables hold

The tables are those of the events committed, row by row (`Stored.holds`), so `getSagaEvents` is a
filter of the part of the log from the origin event up to the other (`getSagaEvents_eq`). It gives
events back as they were committed but for the spelling of their ids and an empty `sagaOrigins`
(`stored`).
-/

namespace NodeCqrs

namespace SqliteEventStorage

variable {V : Type} {s s' : SqliteEventStorage V} {log : List (Event String V)}

/-- The storage after these events were committed, in any batches. -/
inductive Stored : SqliteEventStorage V → List (Event String V) → Prop
  | empty : Stored {} []
  | commitEvents {s s' : SqliteEventStorage V} {log events : List (Event String V)}
      {ignoreConcurrencyError : Bool} : Stored s log →
      s.commitEvents events ignoreConcurrencyError = .ok s' → Stored s' (log ++ events)

def idOf (e : Event String V) : List ℕ := guid (e.id.getD "")

def rowOf (rowid : ℕ) (e : Event String V) : EventRow V where
  rowid := rowid
  id := idOf e
  aggregateId := e.aggregateId.map guid
  aggregateVersion := e.aggregateVersion
  data := { e with id := none, sagaOrigins := none }

def refsOf (e : Event String V) : List SagaRefRow :=
  (e.sagaOrigins.getD []).map fun p => ⟨p.1, guid p.2, idOf e⟩

/-- The event as `#reconstructEvent` makes it. -/
def stored (e : Event String V) : Event String V :=
  let sagaOrigins := (refsOf e).foldl (fun sagaOrigins ref =>
    assignProperty sagaOrigins ref.sagaDescriptor (bufferToGuid ref.originId)) []
  { e with
    id := some (bufferToGuid (idOf e))
    sagaOrigins := if sagaOrigins = [] then none else some sagaOrigins }

/-- The origin event, or one that refers to it. -/
def inSaga (sagaDescriptor : String) (originId : List ℕ) (e : Event String V) : Bool :=
  idOf e = originId || (e.sagaOrigins.getD []).any fun p => p.1 = sagaDescriptor && guid p.2 = originId

/-- The tables are those of the log. -/
structure Holds (s : SqliteEventStorage V) (log : List (Event String V)) : Prop where
  events : s.events = (log.zipIdx 1).map fun p => rowOf p.2 p.1
  eventSagas : s.eventSagas = log.flatMap refsOf
  nodup : (log.map idOf).Nodup

theorem insertSagaRefs_ok {id : List ℕ} : ∀ {origins : List (String × String)}
    {s s' : SqliteEventStorage V},
    origins.foldlM (fun s p => s.insertSagaRef ⟨p.1, guid p.2, id⟩) s = .ok s' →
    s' = { s with
      eventSagas := s.eventSagas ++ origins.map fun p => ⟨p.1, guid p.2, id⟩ }
  | [], s, s', h => by
    obtain rfl : s = s' := by simpa [pure, Except.pure] using h
    simp
  | p :: origins, s, s', h => by
    simp only [List.foldlM_cons, insertSagaRef] at h
    split_ifs at h with hp
    · simp [bind, Except.bind] at h
    · simpa using insertSagaRefs_ok h

namespace Holds

/-- An event of the log has its row. -/
theorem exists_row (h : Holds s log) {e : Event String V} (he : e ∈ log) :
    ∃ n, rowOf n e ∈ s.events := by
  obtain ⟨n, hn⟩ := List.getElem?_of_mem he
  refine ⟨n + 1, ?_⟩
  rw [h.events]
  refine List.mem_map.2 ⟨(e, n + 1), List.mem_zipIdx_iff_le_and_getElem?_sub.2 ?_, rfl⟩
  simpa using hn

theorem commitEvent (h : Holds s log) {ignoreConcurrencyError : Bool} {e : Event String V}
    (hc : commitEvent ignoreConcurrencyError s e = .ok s') : Holds s' (log ++ [e]) := by
  simp only [SqliteEventStorage.commitEvent] at hc
  split at hc
  · cases hc
  · by_cases hid : e.id.getD "" = ""
    · simp [assertString, hid, Except.mapError, bind, Except.bind] at hc
    · simp only [assertString, hid, ↓reduceIte, Except.mapError, insertEvent, bind,
        Except.bind] at hc
      by_cases hdup : s.events.any (·.id = guid (e.id.getD "")) = true
      · simp [hdup] at hc
      · simp only [hdup] at hc
        have hs := insertSagaRefs_ok hc
        have hlen : s.events.length = log.length := by simp [h.events]
        subst hs
        refine ⟨?_, ?_, ?_⟩
        · simp [h.events, List.zipIdx_append, rowOf, idOf, Nat.add_comm]
        · simp [h.eventSagas, refsOf, idOf]
        · rw [List.map_append, List.nodup_append]
          refine ⟨h.nodup, by simp, ?_⟩
          rintro a ha b hb rfl
          obtain rfl : a = idOf e := by simpa using hb
          obtain ⟨e', he', hid'⟩ := List.mem_map.1 ha
          obtain ⟨n, hn⟩ := h.exists_row he'
          exact hdup (List.any_eq_true.2 ⟨_, hn, decide_eq_true hid'⟩)

theorem commitEvents {ignoreConcurrencyError : Bool} : ∀ {events log : List (Event String V)}
    {s s' : SqliteEventStorage V}, Holds s log →
    s.commitEvents events ignoreConcurrencyError = .ok s' → Holds s' (log ++ events)
  | [], log, s, s', h, hc => by
    obtain rfl : s = s' := by simpa [SqliteEventStorage.commitEvents, pure, Except.pure] using hc
    simpa using h
  | e :: events, log, s, s', h, hc => by
    simp only [SqliteEventStorage.commitEvents, List.foldlM_cons] at hc
    rcases ht : SqliteEventStorage.commitEvent ignoreConcurrencyError s e with error | t
    · simp [ht, bind, Except.bind] at hc
    · rw [ht] at hc
      simpa using (h.commitEvent ht).commitEvents hc

end Holds

theorem Stored.holds (h : Stored s log) : Holds s log := by
  induction h with
  | empty => exact ⟨rfl, rfl, List.nodup_nil⟩
  | commitEvents _ hc ih => exact ih.commitEvents hc

/-- The rows are asked about by what their events are. -/
theorem Holds.any_map {α : Type*} {f : α → Event String V} {log : List α}
    (h : Holds s (log.map f)) {p : EventRow V → Bool} {q : α → Bool}
    (hp : ∀ n, ∀ a ∈ log, p (rowOf n (f a)) = q a) : s.events.any p = log.any q := by
  rw [Bool.eq_iff_iff, List.any_eq_true, List.any_eq_true]
  constructor
  · rintro ⟨row, hrow, hpr⟩
    rw [h.events] at hrow
    obtain ⟨⟨e, n⟩, hmem, rfl⟩ := List.mem_map.1 hrow
    obtain ⟨a, ha, rfl⟩ := List.mem_map.1 (List.fst_mem_of_mem_zipIdx hmem)
    exact ⟨a, ha, (hp n a ha).symm.trans hpr⟩
  · rintro ⟨a, ha, hq⟩
    obtain ⟨n, hn⟩ := h.exists_row (List.mem_map_of_mem (f := f) ha)
    exact ⟨_, hn, (hp n a ha).trans hq⟩

theorem Holds.any_rows (h : Holds s log) {p : EventRow V → Bool} {q : Event String V → Bool}
    (hp : ∀ n e, p (rowOf n e) = q e) : s.events.any p = log.any q := by
  have h' : Holds s (log.map id) := by rwa [List.map_id]
  exact h'.any_map fun n e _ => hp n e

/-- The saga references of a new event are new. -/
theorem insertSagaRefs_isOk {id : List ℕ} : ∀ {origins : List (String × String)}
    {s : SqliteEventStorage V}, (origins.map Prod.fst).Nodup →
    (∀ row ∈ s.eventSagas, row.eventId = id → row.sagaDescriptor ∉ origins.map Prod.fst) →
    (origins.foldlM (fun (s : SqliteEventStorage V) p => s.insertSagaRef ⟨p.1, guid p.2, id⟩)
      s).isOk = true
  | [], _, _, _ => rfl
  | p :: origins, s, hnodup, hfresh => by
    obtain ⟨hp, hnodup⟩ := List.nodup_cons.1 hnodup
    have hrow : (⟨p.1, guid p.2, id⟩ : SagaRefRow) ∉ s.eventSagas := fun hmem =>
      hfresh _ hmem rfl List.mem_cons_self
    simp only [List.foldlM_cons, insertSagaRef, if_neg hrow]
    refine insertSagaRefs_isOk hnodup fun row hmem hid => ?_
    rcases List.mem_append.1 hmem with hmem | hmem
    · exact fun hd => hfresh row hmem hid (List.mem_cons_of_mem _ hd)
    · obtain rfl := List.mem_singleton.1 hmem
      exact hp

/-- An event with an id is inserted unless its id is there, or its version and that is no matter. -/
theorem Holds.commitEvent_isOk_eq (h : Holds s log) (ignore : Bool) {e : Event String V}
    (hid : e.id.getD "" ≠ "") (horigins : ((e.sagaOrigins.getD []).map Prod.fst).Nodup) :
    (SqliteEventStorage.commitEvent ignore s e).isOk
      = ((ignore || (s.conflict e).isNone) && log.all fun e' => idOf e' ≠ idOf e) := by
  have hids : s.events.any (·.id = guid (e.id.getD "")) = log.any fun e' => idOf e' = idOf e :=
    h.any_rows fun _ _ => rfl
  have hall : (log.all fun e' => idOf e' ≠ idOf e)
      = !(s.events.any (·.id = guid (e.id.getD ""))) := by
    rw [hids, List.not_any_eq_all_not]
    simp
  rw [hall]
  have hconflict : (if ignore = true then none else s.conflict e).isNone
      = (ignore || (s.conflict e).isNone) := by
    cases ignore <;> rfl
  rw [← hconflict]
  rcases hc : (if ignore = true then none else s.conflict e) with _ | error
  · simp only [SqliteEventStorage.commitEvent, hc, assertString, hid, ↓reduceIte, Except.mapError,
      bind, Except.bind, insertEvent]
    by_cases hdup : s.events.any (·.id = guid (e.id.getD "")) = true
    · simp [hdup, Except.isOk, Except.toBool]
    · simp only [hdup]
      refine insertSagaRefs_isOk horigins fun row hrow hev => absurd hev ?_
      intro hev
      rw [h.eventSagas] at hrow
      obtain ⟨e', he', hrow⟩ := List.mem_flatMap.1 hrow
      obtain ⟨p, -, rfl⟩ := List.mem_map.1 hrow
      rw [hids] at hdup
      exact hdup (List.any_eq_true.2 ⟨e', he', decide_eq_true hev⟩)
  · simp [SqliteEventStorage.commitEvent, hc, Except.isOk, Except.toBool]

/-- The entries between two positions. -/
theorem filter_zipIdx {α : Type} (q : α → Bool) (i j : ℕ) : ∀ (l : List α) (n : ℕ),
    ((l.zipIdx n).filter fun p => decide (i ≤ p.2) && decide (p.2 < j) && q p.1).map Prod.fst
      = ((l.take (j - n)).drop (i - n)).filter q
  | [], n => by simp
  | a :: l, n => by
    have ih := filter_zipIdx q i j l (n + 1)
    rw [List.zipIdx_cons, List.filter_cons]
    rcases Nat.lt_or_ge n j with hj | hj
    · rw [show j - n = j - (n + 1) + 1 by omega, List.take_succ_cons]
      rcases Nat.lt_or_ge n i with hi | hi
      · rw [show i - n = i - (n + 1) + 1 by omega, List.drop_succ_cons, ← ih]
        simp [show ¬ i ≤ n by omega]
      · rw [show i - n = 0 by omega, List.drop_zero, List.filter_cons]
        rw [show i - (n + 1) = 0 by omega, List.drop_zero] at ih
        by_cases hq : q a <;> simp [hi, hj, hq, ← ih]
    · rw [show j - n = 0 by omega]
      rw [show j - (n + 1) = 0 by omega] at ih
      simp only [List.take_zero, List.drop_nil, List.filter_nil] at ih ⊢
      simpa [show ¬ n < j by omega] using ih

namespace Holds

/-- An event is found in one place. -/
theorem position_unique (h : Holds s log) {i j : ℕ} {e e' : Event String V}
    (hi : log[i]? = some e) (hj : log[j]? = some e') (hid : idOf e = idOf e') : i = j := by
  have hlt : i < (log.map idOf).length := by
    simpa using (List.getElem?_eq_some_iff.1 hi).1
  exact (List.getElem?_inj hlt h.nodup).1 (by simp [hi, hj, hid])

theorem getRowid (h : Holds s log) {i : ℕ} {e : Event String V} (hi : log[i]? = some e) :
    s.getRowid (idOf e) = some (i + 1) := by
  have hmem : rowOf (i + 1) e ∈ s.events := by
    rw [h.events]
    refine List.mem_map.2 ⟨(e, i + 1), List.mem_zipIdx_iff_le_and_getElem?_sub.2 ?_, rfl⟩
    simpa using hi
  unfold SqliteEventStorage.getRowid
  rcases hf : s.events.find? (·.id = idOf e) with _ | row
  · exact absurd (List.find?_eq_none.1 hf _ hmem) (by simp [rowOf])
  · have hrow := List.mem_of_find?_eq_some hf
    rw [h.events] at hrow
    obtain ⟨⟨e', n⟩, hp, rfl⟩ := List.mem_map.1 hrow
    obtain ⟨hn, hp⟩ := List.mem_zipIdx_iff_le_and_getElem?_sub.1 hp
    have hid : idOf e' = idOf e := by
      have := List.find?_some hf
      exact of_decide_eq_true this
    have := h.position_unique hp hi hid
    refine (congrArg (Option.map EventRow.rowid) hf).trans (congrArg some (?_ : n = i + 1))
    omega

theorem getRowid_none (h : Holds s log) {id : List ℕ} (hid : ∀ e ∈ log, idOf e ≠ id) :
    s.getRowid id = none := by
  simp only [SqliteEventStorage.getRowid, Option.map_eq_none_iff, List.find?_eq_none]
  intro row hrow
  rw [h.events] at hrow
  obtain ⟨⟨e, n⟩, hp, rfl⟩ := List.mem_map.1 hrow
  exact mt of_decide_eq_true (hid e (List.fst_mem_of_mem_zipIdx hp))

theorem of_getRowid (h : Holds s log) {id : List ℕ} {rowid : ℕ} (hr : s.getRowid id = some rowid) :
    ∃ i e, log[i]? = some e ∧ idOf e = id ∧ rowid = i + 1 := by
  by_cases hid : ∃ e ∈ log, idOf e = id
  · obtain ⟨e, he, rfl⟩ := hid
    obtain ⟨i, hi⟩ := List.getElem?_of_mem he
    rw [h.getRowid hi] at hr
    exact ⟨i, e, hi, rfl, (Option.some.inj hr).symm⟩
  · rw [h.getRowid_none fun e he hid' => hid ⟨e, he, hid'⟩] at hr
    cases hr

/-- The references of an event are its own. -/
theorem filter_eventSagas (h : Holds s log) {e : Event String V} (he : e ∈ log) :
    s.eventSagas.filter (·.eventId = idOf e) = refsOf e := by
  have hother : ∀ l : List (Event String V), (∀ e' ∈ l, idOf e' ≠ idOf e) →
      (l.flatMap refsOf).filter (·.eventId = idOf e) = [] := by
    intro l hl
    rw [List.filter_eq_nil_iff]
    intro ref href
    obtain ⟨e', he', href⟩ := List.mem_flatMap.1 href
    obtain ⟨p, -, rfl⟩ := List.mem_map.1 href
    simpa using hl e' he'
  obtain ⟨l, l', rfl⟩ := List.append_of_mem he
  have hnd := h.nodup
  rw [List.map_append, List.map_cons, List.nodup_middle, List.nodup_cons, List.mem_append] at hnd
  have hl : ∀ e' ∈ l, idOf e' ≠ idOf e :=
    fun e' he' hid => hnd.1 (.inl (hid ▸ List.mem_map_of_mem he'))
  have hl' : ∀ e' ∈ l', idOf e' ≠ idOf e :=
    fun e' he' hid => hnd.1 (.inr (hid ▸ List.mem_map_of_mem he'))
  rw [h.eventSagas, List.flatMap_append, List.flatMap_cons, List.filter_append, List.filter_append,
    hother l hl, hother l' hl', List.nil_append, List.append_nil, List.filter_eq_self]
  intro ref href
  obtain ⟨p, -, rfl⟩ := List.mem_map.1 href
  simp

theorem reconstructEvent (h : Holds s log) {e : Event String V} (he : e ∈ log) (n : ℕ) :
    s.reconstructEvent (rowOf n e) = stored e := by
  have hrefs : s.getSagaOriginsForEvent (idOf e) = (refsOf e).foldl (fun sagaOrigins ref =>
      assignProperty sagaOrigins ref.sagaDescriptor (bufferToGuid ref.originId)) [] :=
    congrArg (List.foldl _ []) (h.filter_eventSagas he)
  simp only [SqliteEventStorage.reconstructEvent, rowOf, hrefs, stored]

theorem mem_eventSagas (h : Holds s log) {e : Event String V} (he : e ∈ log)
    (sagaDescriptor : String) (originId : List ℕ) :
    ⟨sagaDescriptor, originId, idOf e⟩ ∈ s.eventSagas ↔
      ∃ p ∈ e.sagaOrigins.getD [], p.1 = sagaDescriptor ∧ guid p.2 = originId := by
  have hmem : ⟨sagaDescriptor, originId, idOf e⟩ ∈ s.eventSagas ↔
      ⟨sagaDescriptor, originId, idOf e⟩ ∈ refsOf e := by
    rw [← h.filter_eventSagas he, List.mem_filter]
    exact (and_iff_left (decide_eq_true rfl)).symm
  rw [hmem, refsOf, List.mem_map]
  simp

/-- The join finds an event of the saga. -/
theorem join (h : Holds s log) {e : Event String V} (he : e ∈ log) (n : ℕ)
    (sagaDescriptor : String) (originId : List ℕ) :
    ((rowOf n e).id = originId
        || s.eventSagas.any (· = ⟨sagaDescriptor, originId, (rowOf n e).id⟩))
      = inSaga sagaDescriptor originId e := by
  have hmem := h.mem_eventSagas he sagaDescriptor originId
  have hid : (rowOf n e).id = idOf e := rfl
  rw [hid, Bool.eq_iff_iff]
  simpa [inSaga] using or_congr_right hmem

/-- The query for a saga's events, in terms of the log. -/
theorem sagaEvents (h : Holds s log) (sagaDescriptor : String) (originId : List ℕ) (i j : ℕ) :
    (s.sagaEvents sagaDescriptor originId (i + 1) (j + 1)).map s.reconstructEvent
      = (((log.take j).drop i).filter (inSaga sagaDescriptor originId)).map stored := by
  have hfilter := filter_zipIdx (inSaga sagaDescriptor originId) (i + 1) (j + 1) log 1
  simp only [Nat.add_sub_cancel] at hfilter
  rw [SqliteEventStorage.sagaEvents, h.events, List.filter_map, List.map_map, ← hfilter,
    List.map_map]
  have hq : ∀ p ∈ log.zipIdx 1, ((fun e => decide (i + 1 ≤ e.rowid) && decide (e.rowid < j + 1)
      && (decide (e.id = originId) || s.eventSagas.any (· = ⟨sagaDescriptor, originId, e.id⟩)))
        ∘ fun p => rowOf p.2 p.1) p
      = (decide (i + 1 ≤ p.2) && decide (p.2 < j + 1) && inSaga sagaDescriptor originId p.1) := by
    intro p hp
    simp only [Function.comp, h.join (List.fst_mem_of_mem_zipIdx hp)]
    rfl
  rw [List.filter_congr hq]
  refine List.map_congr_left fun p hp => ?_
  exact h.reconstructEvent (List.fst_mem_of_mem_zipIdx (List.mem_filter.1 hp).1) p.2

end Holds

/-- What a saga is restored from lies between its origin event and the other. -/
theorem getSagaEvents_eq (h : Stored s log) {sagaId sagaDescriptor originEventId : String}
    (hs : parseSagaId sagaId = .ok (sagaDescriptor, originEventId)) {beforeEvent : Event String V}
    (hid : beforeEvent.id.getD "" ≠ "")
    (horigin : beforeEvent.sagaOrigin sagaDescriptor = some originEventId)
    {i j : ℕ} {starter e : Event String V} (hi : log[i]? = some starter)
    (hsid : idOf starter = guid originEventId) (hj : log[j]? = some e)
    (heid : idOf e = idOf beforeEvent) :
    s.getSagaEvents sagaId beforeEvent = .ok
      ((((log.take j).drop i).filter (inSaga sagaDescriptor (guid originEventId))).map stored) := by
  have hrow := h.holds.getRowid hi
  have hrow' := h.holds.getRowid hj
  rw [hsid] at hrow
  rw [heid, idOf] at hrow'
  simp [getSagaEvents, assertString, hid, hs, horigin, hrow, hrow', h.holds.sagaEvents, bind,
    Except.bind, pure, Except.pure]

/-- What `getSagaEvents` needs to yield. -/
theorem of_getSagaEvents (h : Stored s log) {sagaId : String} {beforeEvent : Event String V}
    {events : List (Event String V)} (hok : s.getSagaEvents sagaId beforeEvent = .ok events) :
    ∃ (sagaDescriptor originEventId : String) (i j : ℕ) (starter e : Event String V),
      parseSagaId sagaId = .ok (sagaDescriptor, originEventId) ∧ beforeEvent.id.getD "" ≠ ""
      ∧ beforeEvent.sagaOrigin sagaDescriptor = some originEventId
      ∧ log[i]? = some starter ∧ idOf starter = guid originEventId
      ∧ log[j]? = some e ∧ idOf e = idOf beforeEvent := by
  by_cases hid : beforeEvent.id.getD "" = ""
  · simp [getSagaEvents, assertString, hid, bind, Except.bind] at hok
  rcases hp : parseSagaId sagaId with error | ⟨sagaDescriptor, originEventId⟩
  · simp [getSagaEvents, assertString, hid, hp, bind, Except.bind] at hok
  by_cases ho : beforeEvent.sagaOrigin sagaDescriptor = some originEventId
  · rcases hr : s.getRowid (guid originEventId) with _ | originRowid
    · simp [getSagaEvents, assertString, hid, hp, ho, hr, bind, Except.bind] at hok
    rcases hr' : s.getRowid (guid (beforeEvent.id.getD "")) with _ | beforeRowid
    · simp [getSagaEvents, assertString, hid, hp, ho, hr, hr', bind, Except.bind] at hok
    obtain ⟨i, starter, hi, hsid, -⟩ := h.holds.of_getRowid hr
    obtain ⟨j, e, hj, heid, -⟩ := h.holds.of_getRowid hr'
    exact ⟨sagaDescriptor, originEventId, i, j, starter, e, rfl, hid, ho, hi, hsid, hj, heid⟩
  · simp [getSagaEvents, assertString, hid, hp, ho, bind, Except.bind] at hok

/-- What a saga is restored from stays what it is. -/
theorem getSagaEvents_commitEvents (h : Stored s log) {events : List (Event String V)}
    {ignoreConcurrencyError : Bool} (hc : s.commitEvents events ignoreConcurrencyError = .ok s')
    {sagaId : String} {beforeEvent : Event String V} {sagaEvents : List (Event String V)}
    (hok : s.getSagaEvents sagaId beforeEvent = .ok sagaEvents) :
    s'.getSagaEvents sagaId beforeEvent = .ok sagaEvents := by
  obtain ⟨sagaDescriptor, originEventId, i, j, starter, e, hp, hid, ho, hi, hsid, hj, heid⟩ :=
    of_getSagaEvents h hok
  have hlt := (List.getElem?_eq_some_iff.1 hj).1
  have hi' : (log ++ events)[i]? = some starter := by
    rw [List.getElem?_append_left (List.getElem?_eq_some_iff.1 hi).1, hi]
  have hj' : (log ++ events)[j]? = some e := by rw [List.getElem?_append_left hlt, hj]
  have htake : (log ++ events).take j = log.take j :=
    List.take_append_of_le_length (Nat.le_of_lt hlt)
  rw [getSagaEvents_eq (h.commitEvents hc) hp hid ho hi' hsid hj' heid, htake,
    ← getSagaEvents_eq h hp hid ho hi hsid hj heid, hok]

end SqliteEventStorage

end NodeCqrs
