import NodeCqrs.Proofs.InMemoryCommits
import NodeCqrs.Proofs.SqliteEventStorage
import NodeCqrs.Proofs.SqliteGuid

/-!
# What `SqliteEventStorage` gives back

`getAggregateEvents` picks from the aggregate's events past the snapshot (`pick`) as
`InMemoryEventStorage` does, and gives them back as they were committed but for an empty
`sagaOrigins` and an origin under `__proto__`, which is lost (`commits_read_back_iff`). Calls that
are refused leave no trace.
-/

namespace NodeCqrs

/-- An event with hex ids. No property of its `sagaOrigins` is there twice. -/
structure IsGuidEvent {V : Type} (e : Event String V) : Prop where
  id : ∃ id, e.id = some id ∧ IsGuid id
  aggregateId : ∀ aggregateId ∈ e.aggregateId, IsGuid aggregateId
  sagaOrigins : ((e.sagaOrigins.getD []).map Prod.fst).Nodup
  originIds : ∀ p ∈ e.sagaOrigins.getD [], IsGuid p.2

/-- The event without a `sagaOrigins` that has no property. -/
def Event.dropEmptyOrigins {I V : Type} (e : Event I V) : Event I V :=
  { e with sagaOrigins := e.sagaOrigins.filter (· ≠ []) }

/-- No saga origin is under the name of the setter of the prototype. -/
def Event.NoProto {I V : Type} (e : Event I V) : Prop :=
  "__proto__" ∉ (e.sagaOrigins.getD []).map Prod.fst

instance Event.NoProto.decidable {I V : Type} (e : Event I V) : Decidable e.NoProto :=
  inferInstanceAs (Decidable (¬ _))

/-- The event as its rows give it back. -/
def Event.readBack {I V : Type} (e : Event I V) : Event I V :=
  Event.dropEmptyOrigins
    { e with sagaOrigins := e.sagaOrigins.map (·.filter (·.1 ≠ "__proto__")) }

theorem Event.readBack_eq_drop_iff {I V : Type} {e : Event I V} :
    e.readBack = e.dropEmptyOrigins ↔ e.NoProto := by
  obtain ⟨id, type, aggregateId, aggregateVersion, sagaOrigins, payload, context⟩ := e
  rcases sagaOrigins with _ | origins
  · simp [readBack, dropEmptyOrigins, NoProto]
  · have hsame : (some (origins.filter (·.1 ≠ "__proto__"))).filter (· ≠ [])
        = (some origins).filter (· ≠ []) ↔ origins.filter (·.1 ≠ "__proto__") = origins := by
      refine ⟨fun h => ?_, fun h => by rw [h]⟩
      rcases horigins : origins with _ | ⟨p, l⟩
      · rfl
      · have hsome : (some origins).filter (· ≠ []) = some origins := by simp [horigins]
        rw [hsome, Option.filter_eq_some_iff] at h
        rw [← horigins]
        exact Option.some.inj h.1
    simp only [readBack, dropEmptyOrigins, NoProto, Option.map_some, Event.mk.injEq, hsame,
      true_and, and_true, Option.getD_some, List.filter_eq_self]
    simp only [ne_eq, decide_not, Bool.not_eq_eq_eq_not, Bool.not_true, decide_eq_false_iff_not,
      List.mem_map, not_exists, not_and]

/-- What is picked of an aggregate's events: those of the types asked for, and the last. -/
def AggregateEventsQueryParams.pick {I V : Type} (options : AggregateEventsQueryParams I V)
    (all : List (Event I V)) : List (Event I V) :=
  match options.eventTypes with
  | none => all
  | some eventTypes => all.filter (·.type ∈ eventTypes) ++ if options.tailLast then
      (all.getLast?.filter (·.type ∉ eventTypes)).toList else []

namespace SqliteEventStorage

variable {V : Type} {s s' : SqliteEventStorage V} {log : List (Event String V)}

/-- Properties assigned one after the other, none twice. -/
theorem foldl_assignProperty : ∀ (origins properties : List (String × String)),
    ((properties ++ origins).map Prod.fst).Nodup →
    origins.foldl (fun properties p => assignProperty properties p.1 p.2) properties
      = properties ++ origins.filter (·.1 ≠ "__proto__")
  | [], properties, _ => by simp
  | p :: origins, properties, hnd => by
    have hp : p.1 ∉ properties.map Prod.fst := by
      rw [List.map_append, List.map_cons, List.nodup_middle, List.nodup_cons] at hnd
      exact fun hp => hnd.1 (List.mem_append_left _ hp)
    by_cases hproto : p.1 = "__proto__"
    · rw [List.foldl_cons, assignProperty, if_pos hproto, foldl_assignProperty origins properties,
        List.filter_cons_of_neg (by simpa using hproto)]
      rw [List.map_append, List.map_cons] at hnd
      rw [List.map_append]
      exact (List.nodup_middle.1 hnd).of_cons
    · rw [List.foldl_cons, assignProperty, if_neg hproto, setProperty, if_neg hp,
        foldl_assignProperty origins (properties ++ [p]),
        List.filter_cons_of_pos (by simpa using hproto)]
      · simp
      · simpa using hnd

/-- An event is given back as its rows have it. -/
theorem stored_eq {e : Event String V} (h : IsGuidEvent e) : stored e = e.readBack := by
  obtain ⟨id, hid, hguid⟩ := h.id
  have hfold : (refsOf e).foldl (fun sagaOrigins ref =>
      assignProperty sagaOrigins ref.sagaDescriptor (bufferToGuid ref.originId)) []
      = (e.sagaOrigins.getD []).filter (·.1 ≠ "__proto__") := by
    rw [refsOf, List.foldl_map, List.foldl_ext _ (fun properties p =>
      assignProperty properties p.1 p.2) [] fun properties p hp => by
        rw [(h.originIds p hp).bufferToGuid_guid],
      foldl_assignProperty _ _ (by simpa using h.sagaOrigins), List.nil_append]
  have hbuf : bufferToGuid (idOf e) = id := by simpa [idOf, hid] using hguid.bufferToGuid_guid
  have horigins : ∀ origins : List (String × String),
      (if origins = [] then none else some origins) = (some origins).filter (· ≠ []) := by
    rintro (_ | ⟨p, origins⟩) <;> rfl
  have hnone : ∀ f : List (String × String) → List (String × String), f [] = [] →
      (some (f (e.sagaOrigins.getD []))).filter (· ≠ [])
        = (e.sagaOrigins.map f).filter (· ≠ []) := by
    intro f hf
    rcases e.sagaOrigins with _ | origins
    · simp [hf]
    · rfl
  simp only [stored, hfold, hbuf, horigins, Event.readBack, Event.dropEmptyOrigins, hid]
  rw [hnone _ List.filter_nil]

/-- An event of the aggregate past the version. -/
def past (aggregateId : List ℕ) (afterVersion : Option ℕ) (e : Event String V) : Bool :=
  e.aggregateId.map guid = some aggregateId
    && afterVersion.all fun v => e.aggregateVersion.any (v < ·)

/-- Where no id is there twice, the last event is the one with its id. -/
theorem filter_tail {l : List (Event String V)} {tail : Event String V}
    (hnd : ((l ++ [tail]).map idOf).Nodup) (p : Event String V → Bool) :
    (l ++ [tail]).filter (fun e => p e || idOf e = idOf tail) = l.filter p ++ [tail] := by
  rw [List.map_append, List.nodup_append] at hnd
  rw [List.filter_append, List.filter_cons_of_pos (by simp), List.filter_nil]
  congr 1
  refine List.filter_congr fun e he => ?_
  have hne : idOf e ≠ idOf tail := hnd.2.2 _ (List.mem_map_of_mem he) _ (by simp)
  simp [hne]

/-- What the query selects of the events past the version. -/
theorem filter_eq_pick {all : List (Event String V)} (hnd : (all.map idOf).Nodup)
    (options : AggregateEventsQueryParams String V) :
    (match all.getLast? with
      | none => []
      | some tail => all.filter fun e => options.eventTypes.all (e.type ∈ ·)
        || options.tailLast && idOf e = idOf tail) = options.pick all := by
  rcases List.eq_nil_or_concat' all with rfl | ⟨l, tail, rfl⟩
  · rcases ht : options.eventTypes with _ | eventTypes <;>
      simp [AggregateEventsQueryParams.pick, ht]
  · simp only [List.getLast?_concat, AggregateEventsQueryParams.pick]
    rcases options.eventTypes with _ | eventTypes
    · simp
    · cases ht : options.tailLast with
      | false => simp
      | true =>
        simp only [Option.all_some, Bool.true_and, if_true]
        rw [filter_tail hnd, List.filter_append]
        by_cases hmem : tail.type ∈ eventTypes <;> simp [hmem, Option.filter]

namespace Holds

/-- Rows chosen by what their events are. -/
theorem map_filter {α : Type} (h : Holds s log) {P : EventRow V → Bool} {p : Event String V → Bool}
    {f : EventRow V → α} {g : Event String V → α} (hp : ∀ e n, P (rowOf n e) = p e)
    (hf : ∀ e ∈ log, ∀ n, f (rowOf n e) = g e) :
    (s.events.filter P).map f = (log.filter p).map g := by
  have hlog : log = (log.zipIdx 1).map Prod.fst := (List.zipIdx_map_fst 1 log).symm
  have hcongr : (log.zipIdx 1).filter (P ∘ fun q => rowOf q.2 q.1)
      = (log.zipIdx 1).filter (p ∘ Prod.fst) :=
    List.filter_congr fun q _ => hp q.1 q.2
  rw [h.events, List.filter_map, List.map_map, hcongr]
  conv_rhs => rw [hlog, List.filter_map, List.map_map]
  exact List.map_congr_left fun q hq =>
    hf q.1 (List.fst_mem_of_mem_zipIdx (List.mem_filter.1 hq).1) q.2

/-- What `getAggregateEvents` yields, in terms of the log. -/
theorem getAggregateEvents (h : Holds s log) (aggregateId : String)
    (options : AggregateEventsQueryParams String V) :
    s.getAggregateEvents aggregateId options =
      (options.pick (log.filter (past (guid aggregateId)
        (options.snapshot.bind (·.aggregateVersion))))).map stored := by
  rw [SqliteEventStorage.getAggregateEvents, aggregateEvents]
  set isPast' := isPast (V := V) (guid aggregateId) (options.snapshot.bind (·.aggregateVersion))
  set all := log.filter (past (guid aggregateId) (options.snapshot.bind (·.aggregateVersion)))
    with hall
  have hnd : (all.map idOf).Nodup := h.nodup.sublist (List.filter_sublist.map idOf)
  have htail : (s.events.filter isPast').getLast?.map (·.id) = all.getLast?.map idOf := by
    rw [← List.getLast?_map, ← List.getLast?_map]
    exact congrArg List.getLast? (h.map_filter (fun _ _ => rfl) fun _ _ _ => rfl)
  rw [← filter_eq_pick hnd options]
  rcases hrow : (s.events.filter isPast').getLast? with _ | row
  · rw [hrow] at htail
    rw [Option.map_eq_none_iff.1 htail.symm]
    rfl
  · rw [hrow] at htail
    obtain ⟨tail, htail', hid⟩ := Option.map_eq_some_iff.1 htail.symm
    have hid' : row.id = idOf tail := hid.symm
    simp only [htail', hid']
    rw [hall, List.filter_filter]
    exact h.map_filter (fun e n => Bool.and_comm ..) fun e he n => h.reconstructEvent he n

/-- Without `ignoreConcurrencyError`, no stored event has the pair of one that is committed. -/
theorem fresh (h : Holds s log) {e : Event String V} (hguid : IsGuidEvent e)
    (hc : SqliteEventStorage.commitEvent false s e = .ok s') :
    ∀ e' ∈ log, ¬ InMemoryEventStorage.SamePair e' e := by
  rintro e' he' hsame
  have heq := hsame.2.2
  simp only [InMemoryEventStorage.sameVersion, Bool.and_eq_true, decide_eq_true_eq] at heq
  obtain ⟨hid, hv, -⟩ := hsame.symm
  obtain ⟨aggregateId, hid⟩ := Option.isSome_iff_exists.1 hid
  obtain ⟨aggregateVersion, hv⟩ := Option.isSome_iff_exists.1 hv
  have htruthy : truthy aggregateId = true :=
    decide_eq_true (hguid.aggregateId aggregateId hid).ne_empty
  have hstored : s.checkConcurrency (guid aggregateId) aggregateVersion = true := by
    obtain ⟨n, hn⟩ := h.exists_row he'
    refine List.any_eq_true.2 ⟨_, hn, ?_⟩
    simp [rowOf, heq.1, heq.2, hid, hv]
  have hconflict : s.conflict e = some (.concurrencyError aggregateVersion aggregateId) := by
    simp [conflict, hid, hv, Option.filter, htruthy, hstored]
  simp [SqliteEventStorage.commitEvent, hconflict] at hc

end Holds

/-- Where two of the events have one pair, the later one was committed with
`ignoreConcurrencyError`. -/
def Forced (events : List (Event String V × Bool)) : Prop :=
  events.Pairwise fun x y => InMemoryEventStorage.SamePair x.1 y.1 → y.2 = true

theorem Forced.commitEvents {ignoreConcurrencyError : Bool} : ∀ {events : List (Event String V)}
    {log : List (Event String V × Bool)} {s s' : SqliteEventStorage V}, Forced log →
    Holds s (log.map Prod.fst) → (∀ e ∈ events, IsGuidEvent e) →
    s.commitEvents events ignoreConcurrencyError = .ok s' →
      Forced (log ++ events.map (·, ignoreConcurrencyError))
  | [], log, s, s', hf, _, _, _ => by simpa using hf
  | e :: events, log, s, s', hf, h, hguid, hc => by
    simp only [SqliteEventStorage.commitEvents, List.foldlM_cons] at hc
    rcases ht : commitEvent ignoreConcurrencyError s e with error | t
    · simp [ht, bind, Except.bind] at hc
    · rw [ht] at hc
      have hstep : Forced (log ++ [(e, ignoreConcurrencyError)]) := by
        refine List.pairwise_append.2 ⟨hf, List.pairwise_singleton _ _, ?_⟩
        rintro x hx y hy hsame
        obtain rfl := List.mem_singleton.1 hy
        cases ignoreConcurrencyError with
        | true => rfl
        | false =>
          exact absurd hsame (h.fresh (hguid e List.mem_cons_self) ht x.1
            (List.mem_map_of_mem hx))
      have hholds : Holds t ((log ++ [(e, ignoreConcurrencyError)]).map Prod.fst) := by
        simpa using h.commitEvent ht
      simpa using hstep.commitEvents hholds (fun e he => hguid e (List.mem_cons_of_mem _ he)) hc

/-- The tables after the calls are those of the events of the calls that were fulfilled. -/
theorem holds_committed : ∀ {calls : List (CommitCall V)} {log : List (Event String V × Bool)}
    {s : SqliteEventStorage V}, Forced log → Holds s (log.map Prod.fst) →
    (∀ call ∈ calls, ∀ e ∈ call.events, IsGuidEvent e) →
      Forced (log ++ s.committed calls)
        ∧ Holds (calls.foldl afterCall s) ((log ++ s.committed calls).map Prod.fst)
  | [], log, s, hf, h, _ => by simpa [committed] using ⟨hf, h⟩
  | call :: calls, log, s, hf, h, hguid => by
    have hrest := fun call' hcall => hguid call' (List.mem_cons_of_mem call hcall)
    simp only [List.foldl_cons, afterCall, committed]
    rcases hc : s.commitEvents call.events call.ignoreConcurrencyError with error | s'
    · exact holds_committed hf h hrest
    · have hf' := hf.commitEvents h (hguid call List.mem_cons_self) hc
      have h' : Holds s' ((log ++ call.events.map (·, call.ignoreConcurrencyError)).map
          Prod.fst) := by
        simpa [Function.comp_def] using h.commitEvents hc
      simpa using holds_committed hf' h' hrest

theorem mem_committed {x : Event String V × Bool} : ∀ {calls : List (CommitCall V)}
    {s : SqliteEventStorage V}, x ∈ s.committed calls → ∃ call ∈ calls, x.1 ∈ call.events
  | [], s, h => by cases h
  | call :: calls, s, h => by
    simp only [committed] at h
    split at h
    · rcases List.mem_append.1 h with h | h
      · obtain ⟨e, he, rfl⟩ := List.mem_map.1 h
        exact ⟨call, List.mem_cons_self, he⟩
      · obtain ⟨call', hcall, he⟩ := mem_committed h
        exact ⟨call', List.mem_cons_of_mem _ hcall, he⟩
    · obtain ⟨call', hcall, he⟩ := mem_committed h
      exact ⟨call', List.mem_cons_of_mem _ hcall, he⟩

/-- The events of an aggregate with a hex id. -/
theorem past_guid {aggregateId : String} (hid : IsGuid aggregateId) {e : Event String V}
    (h : IsGuidEvent e) (afterVersion : Option ℕ) :
    past (guid aggregateId) afterVersion e = (decide (e.aggregateId = some aggregateId)
      && afterVersion.all fun v => e.aggregateVersion.any (v < ·)) := by
  unfold past
  congr 2
  rcases ha : e.aggregateId with _ | aggregateId'
  · simp
  · have hinj : guid aggregateId' = guid aggregateId ↔ aggregateId' = aggregateId :=
      ⟨(h.aggregateId aggregateId' ha).canonicalId.guid_inj hid.canonicalId, congrArg guid⟩
    simpa using hinj

/-- A call that is refused leaves the tables as they were. The events of the others are read back in
the order they were committed, and two of them have one pair only if the later was committed with
`ignoreConcurrencyError`. -/
structure ReadsBack (calls : List (CommitCall V)) : Prop where
  rejected : ∀ call error, (calls.foldl afterCall {}).commitEvents call.events
    call.ignoreConcurrencyError = .error error →
      (calls.foldl afterCall {}).afterCall call = calls.foldl afterCall {}
  aggregateEvents : ∀ aggregateId, IsGuid aggregateId →
    (calls.foldl afterCall {}).getAggregateEvents aggregateId
      = (((committed {} calls).map Prod.fst).filter (·.aggregateId = some aggregateId)).map
        Event.dropEmptyOrigins
  forced : (committed {} calls).Pairwise fun x y =>
    InMemoryEventStorage.SamePair x.1 y.1 → y.2 = true

section Calls

variable {calls : List (CommitCall V)} (hguid : ∀ call ∈ calls, ∀ e ∈ call.events, IsGuidEvent e)

include hguid

theorem isGuidEvent_committed : ∀ e ∈ (committed {} calls).map Prod.fst, IsGuidEvent e := by
  intro e he
  obtain ⟨x, hx, rfl⟩ := List.mem_map.1 he
  obtain ⟨call, hcall, hmem⟩ := mem_committed hx
  exact hguid call hcall _ hmem

theorem committed_holds : Forced (committed {} calls)
    ∧ Holds (calls.foldl afterCall {}) ((committed {} calls).map Prod.fst) := by
  have h : Forced ([] ++ committed {} calls)
      ∧ Holds (calls.foldl afterCall {}) (([] ++ committed {} calls).map Prod.fst) :=
    holds_committed List.Pairwise.nil Stored.empty.holds hguid
  rwa [List.nil_append] at h

/-- What `getAggregateEvents` yields after any calls. -/
theorem getAggregateEvents_committed {aggregateId : String} (hid : IsGuid aggregateId) :
    (calls.foldl afterCall {}).getAggregateEvents aggregateId
      = (((committed {} calls).map Prod.fst).filter (·.aggregateId = some aggregateId)).map
        Event.readBack := by
  have hlog := isGuidEvent_committed hguid
  rw [(committed_holds hguid).2.getAggregateEvents]
  simp only [AggregateEventsQueryParams.pick, Option.bind_none]
  rw [List.filter_congr fun e he => past_guid hid (hlog e he) none]
  refine (List.map_congr_left fun e he => stored_eq (hlog e (List.mem_filter.1 he).1)).trans ?_
  simp

/-- After any calls all is read back as it was committed if and only if no event of an aggregate
that was has an origin under `__proto__`. -/
theorem commits_read_back_iff : ReadsBack calls ↔
    ∀ x ∈ committed {} calls, x.1.aggregateId.isSome → x.1.NoProto := by
  have hlog := isGuidEvent_committed hguid
  constructor
  · intro h x hx hsome
    obtain ⟨aggregateId, ha⟩ := Option.isSome_iff_exists.1 hsome
    have he := List.mem_map_of_mem (f := Prod.fst) hx
    have hid : IsGuid aggregateId := (hlog x.1 he).aggregateId aggregateId ha
    have hread := h.aggregateEvents aggregateId hid
    rw [getAggregateEvents_committed hguid hid] at hread
    refine Event.readBack_eq_drop_iff.1 (List.map_inj_left.1 hread x.1 ?_)
    exact List.mem_filter.2 ⟨he, decide_eq_true ha⟩
  · intro h
    refine ⟨fun call error hc => by simp [afterCall, hc], fun aggregateId hid => ?_,
      (committed_holds hguid).1⟩
    rw [getAggregateEvents_committed hguid hid]
    refine List.map_congr_left fun e he => Event.readBack_eq_drop_iff.2 ?_
    obtain ⟨hmem, ha⟩ := List.mem_filter.1 he
    obtain ⟨x, hx, rfl⟩ := List.mem_map.1 hmem
    exact h x hx (by simp [of_decide_eq_true ha])

end Calls

/-- An event of an aggregate that is created, with an empty `sagaOrigins`. -/
def created : Event String ℕ :=
  { id := some "a0000000000000000000000000000001", type := "created"
    aggregateId := some "b0000000000000000000000000000001", aggregateVersion := some 0
    sagaOrigins := some [], payload := 0 }

/-- An event of the same version. -/
def renamed : Event String ℕ :=
  { created with id := some "a0000000000000000000000000000002", type := "renamed" }

theorem created_isGuidEvent : IsGuidEvent created where
  id := ⟨_, rfl, isGuid_of_all (by decide)⟩
  aggregateId := by simpa [created] using isGuid_of_all (by decide)
  sagaOrigins := List.nodup_nil
  originIds := by simp [created]

theorem renamed_isGuidEvent : IsGuidEvent renamed where
  id := ⟨_, rfl, isGuid_of_all (by decide)⟩
  aggregateId := created_isGuidEvent.aggregateId
  sagaOrigins := List.nodup_nil
  originIds := by simp [renamed, created]

/-- The second of these calls is rejected, the third forces its event in. -/
def contended : List (CommitCall ℕ) :=
  [{ events := [created] }, { events := [renamed] },
    { events := [renamed], ignoreConcurrencyError := true }]

theorem contended_isGuidEvent : ∀ call ∈ contended, ∀ e ∈ call.events, IsGuidEvent e := by
  simpa [contended] using ⟨created_isGuidEvent, renamed_isGuidEvent⟩

/-- What was forced in is read back as well. -/
theorem contended_read_back : committed {} contended = [(created, false), (renamed, true)]
    ∧ (contended.foldl afterCall {}).getAggregateEvents "b0000000000000000000000000000001"
      = [created.dropEmptyOrigins, renamed.dropEmptyOrigins] := by
  have hc : committed {} contended = [(created, false), (renamed, true)] := rfl
  refine ⟨hc, ?_⟩
  have hread := (commits_read_back_iff contended_isGuidEvent).2 (by rw [hc]; decide)
  rw [hread.aggregateEvents _ (isGuid_of_all (by decide)), hc]
  rfl

/-- An event with an origin under `__proto__` comes back without it. -/
theorem proto_not_read_back : ¬ ∀ calls : List (CommitCall ℕ),
    (∀ call ∈ calls, ∀ e ∈ call.events, IsGuidEvent e) → ReadsBack calls := by
  intro hall
  let e : Event String ℕ :=
    { created with sagaOrigins := some [("__proto__", "a0000000000000000000000000000003")] }
  have hguid : IsGuidEvent e :=
    ⟨created_isGuidEvent.id, created_isGuidEvent.aggregateId, by simp [e],
      by simpa [e] using isGuid_of_all (by decide)⟩
  have hread := (hall [{ events := [e] }] (by simpa using hguid)).aggregateEvents
    "b0000000000000000000000000000001" (isGuid_of_all (by decide))
  exact absurd hread (by decide)

end SqliteEventStorage

end NodeCqrs
