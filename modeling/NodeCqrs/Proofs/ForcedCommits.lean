import NodeCqrs.ForcedCommits
import NodeCqrs.Proofs.AggregateLog
import NodeCqrs.Proofs.EventDispatcher

/-!
# Versions after forced commits

An instance numbers what its commands emit from the version it was restored with, whatever its
handlers do (`Numbers`). As long as each batch that is stored ends past what is stored of its
aggregate, the version after the event stored last is past all of them (`Ordered`), and that is the
version an instance is restored with (`Ordered.restored`). A batch that ends below leaves it behind
(`reaches_of_ahead`).
-/

namespace NodeCqrs

/-- The instance is of the aggregate, numbers what it emits from `start` on, and its batches are
parts of that. -/
structure Working.Numbers {I V σ : Type} (id : I) (start : ℕ) (w : Working I V σ) : Prop where
  aggregate : w.aggregate.id = id
  numbered : Numbered (·.aggregateVersion) start w.aggregate.changes
  version : w.aggregate.version = start + w.aggregate.changes.length
  ofId : ∀ e ∈ w.aggregate.changes, e.aggregateId = some id
  batches : ∀ events ∈ w.batches, (∃ k, start ≤ k ∧ Numbered (·.aggregateVersion) k events)
    ∧ ∀ e ∈ events, e.aggregateId = some id

namespace Working.Numbers

open AggregateType (Adds)

variable {I V σ : Type} {id : I} {start : ℕ} {w : Working I V σ}

theorem init {a : Aggregate I V σ} (h : a.changes = []) :
    Numbers a.id a.version ({ aggregate := a } : Working I V σ) := by
  refine ⟨rfl, ?_, ?_, ?_, ?_⟩ <;> simp [h]

theorem adds (h : Numbers id start w) {a : Aggregate I V σ} {new : List (Event I V)}
    (ha : Adds w.aggregate a new) : Numbers id start { w with aggregate := a } where
  aggregate := ha.id.trans h.aggregate
  numbered := by
    rw [ha.changes]
    exact h.numbered.append (h.version ▸ ha.numbered)
  version := by
    rw [ha.version, ha.changes, h.version, List.length_append, Nat.add_assoc]
  ofId e he := by
    rw [ha.changes] at he
    rcases List.mem_append.1 he with he | he
    · exact h.ofId e he
    · rw [ha.ofId e he, h.aggregate]
  batches := h.batches

theorem setCommand (h : Numbers id start w) (command : Option (Command I V)) (eventsOffset : ℕ) :
    Numbers id start { w with aggregate := { w.aggregate with command }, eventsOffset } :=
  ⟨h.aggregate, h.numbered, h.version, h.ofId, h.batches⟩

theorem handle (h : Numbers id start w) (command : Command I V) :
    Numbers id start (w.handle command) := by
  simp only [Working.handle, Aggregate.handle]
  cases w.aggregate.command
  · exact h.setCommand _ _
  · exact h

theorem throws (h : Numbers id start w) : Numbers id start w.throws := h.setCommand _ _

/-- The changes past an offset. -/
theorem drop (h : Numbers id start w) (offset : ℕ) :
    (∃ k, start ≤ k ∧ Numbered (·.aggregateVersion) k (w.aggregate.changes.drop offset))
      ∧ ∀ e ∈ w.aggregate.changes.drop offset, e.aggregateId = some id := by
  refine ⟨?_, fun e he => h.ofId e (List.mem_of_mem_drop he)⟩
  by_cases hle : offset ≤ w.aggregate.changes.length
  · exact ⟨start + offset, Nat.le_add_right .., h.numbered.drop hle⟩
  · rw [List.drop_eq_nil_of_le (Nat.le_of_not_le hle)]
    exact ⟨start, Nat.le_refl _, Numbered.nil _⟩

variable [Truthy V] {T : AggregateType I V σ}

theorem call (h : Numbers id start w) (method : Method V) :
    Numbers id start (w.call T method) := by
  obtain ⟨new, ha⟩ := AggregateType.callMethod_adds (T := T) w.aggregate method
  exact h.adds ha

theorem calls : ∀ (methods : List (Method V)) {w : Working I V σ}, Numbers id start w →
    Numbers id start (methods.foldl (Working.call T) w)
  | [], _, h => h
  | method :: methods, _, h => calls methods (h.call method)

theorem returns (h : Numbers id start w) (shouldTakeSnapshot : Bool) :
    Numbers id start (w.returns T shouldTakeSnapshot) := by
  obtain ⟨⟨new, ha⟩, hev⟩ := AggregateType.getUncommittedEvents_adds (T := T) w.aggregate
    shouldTakeSnapshot w.eventsOffset
  have h' := (h.adds ha).setCommand none w.eventsOffset
  refine ⟨h'.aggregate, h'.numbered, h'.version, h'.ofId, fun events he => ?_⟩
  rcases List.mem_append.1 he with he | he
  · exact h'.batches events he
  · rw [hev events (Option.mem_toList.1 he)]
    exact h'.drop w.eventsOffset

end Working.Numbers

namespace ForcedCommits

variable {I V σ : Type} [DecidableEq I]

/-- The version after that of the event stored last. -/
def next (log : List (Event I V)) (id : I) : ℕ :=
  ((stored log id).getLast?.bind (·.aggregateVersion)).elim 0 (· + 1)

/-- All versions stored are below the next. -/
def Ordered (log : List (Event I V)) (id : I) : Prop :=
  ∀ e ∈ stored log id, ∃ v, e.aggregateVersion = some v ∧ v < next log id

section log

variable {log events : List (Event I V)} {id : I} {start : ℕ}

theorem next_concat {l : List (Event I V)} {e : Event I V} {v : ℕ}
    (h : stored log id = l ++ [e]) (hv : e.aggregateVersion = some v) :
    next log id = v + 1 := by
  simp [next, h, hv]

theorem next_le {n : ℕ} (h : ∀ e ∈ stored log id, ∀ v ∈ e.aggregateVersion, v < n) :
    next log id ≤ n := by
  rcases hl : (stored log id).getLast?.bind (·.aggregateVersion) with _ | v
  · simp [next, hl]
  · obtain ⟨e, he, hv⟩ := Option.bind_eq_some_iff.1 hl
    have hlt : v < n := h e (List.mem_of_getLast? he) v hv
    rw [next, hl]
    exact hlt

variable {a : Aggregate I V σ}

theorem next_append (hid : ∀ e ∈ events, e.aggregateId = some a.id)
    (hn : Numbered (·.aggregateVersion) start events) (hne : events ≠ []) :
    next (log ++ events) a.id = start + events.length := by
  rcases List.eq_nil_or_concat' events with rfl | ⟨l, e, rfl⟩
  · exact absurd rfl hne
  · have hst : stored (log ++ (l ++ [e])) a.id = (stored log a.id ++ l) ++ [e] := by
      rw [AggregateType.stored_append hid, if_pos rfl, List.append_assoc]
    rw [next_concat hst (Numbered.append_iff.1 hn).2.1]
    simp [Nat.add_assoc]

/-- A batch is stored that ends no earlier than the next version. -/
theorem Ordered.append (h : Ordered log id) (hid : ∀ e ∈ events, e.aggregateId = some a.id)
    (hn : Numbered (·.aggregateVersion) start events)
    (hend : events ≠ [] → next log a.id ≤ start + events.length) :
    Ordered (log ++ events) id := by
  by_cases hnew : id = a.id ∧ events ≠ []
  · obtain ⟨rfl, hne⟩ := hnew
    rw [Ordered, next_append hid hn hne, AggregateType.stored_append hid, if_pos rfl]
    intro e he
    rcases List.mem_append.1 he with he | he
    · obtain ⟨v, hv, hlt⟩ := h e he
      exact ⟨v, hv, Nat.lt_of_lt_of_le hlt (hend hne)⟩
    · obtain ⟨v, hv, -, hlt⟩ := hn.bounds he
      exact ⟨v, hv, hlt⟩
  · have hst : stored (log ++ events) id = stored log id := by
      rw [AggregateType.stored_append hid]
      split_ifs with hida
      · rw [not_not.1 fun hne => hnew ⟨hida, hne⟩, List.append_nil]
      · rw [List.append_nil]
    rw [Ordered, next, hst]
    exact h

/-- A batch that starts past what is stored meets none of it. -/
theorem conflict_eq_none (hid : ∀ e ∈ events, e.aggregateId = some id)
    (hn : Numbered (·.aggregateVersion) start events)
    (hlt : ∀ e ∈ log, e.aggregateId = some id → ∀ v ∈ e.aggregateVersion, v < start)
    {e : Event I V} (he : e ∈ events) : InMemoryEventStorage.conflict log e = none := by
  obtain ⟨v, hv, hle, -⟩ := hn.bounds he
  have hany : log.any (InMemoryEventStorage.sameVersion · e) = false := by
    refine List.any_eq_false.2 fun x hx hsame => ?_
    simp only [InMemoryEventStorage.sameVersion, hid e he, hv, Bool.and_eq_true,
      decide_eq_true_eq] at hsame
    have := hlt x hx hsame.1 v hsame.2
    omega
  simp [InMemoryEventStorage.conflict, hid e he, hv, hany]

end log

/-! ## What is restored -/

variable [DecidableEq V] [Truthy V] {T : AggregateType I V σ}

/-- The instance is past all that is stored, so what its next command emits is committed, whatever
its handler calls and catches. -/
structure Ahead (T : AggregateType I V σ) (eventStorage : InMemoryEventStorage I V) (id : I)
    (a : Aggregate I V σ) : Prop where
  version : ∀ e ∈ eventStorage.events, e.aggregateId = some id →
    ∀ v ∈ e.aggregateVersion, v < a.version
  commits : ∀ command (methods : List (Method V)) shouldTakeSnapshot,
    ∀ events ∈ ((methods.foldl (Working.call T)
        (Working.handle { aggregate := a } command)).returns T shouldTakeSnapshot).batches,
      ∃ eventStorage', eventStorage.commitEvents events false = .ok eventStorage'

/-- Every instance restored, from whichever snapshot, is. -/
def RestoresAhead (T : AggregateType I V σ) (s : ForcedCommits I V σ) : Prop :=
  ∀ id snapshot, isSnapshotOf s.eventStorage.events id snapshot →
    ∀ a, restoreAggregate T s.eventStorage.events id snapshot = some a →
      Ahead T s.eventStorage id a

omit [DecidableEq V] in
theorem restoreAggregate_spec {log : List (Event I V)} {id : I} {snapshot : Option (Event I V)}
    {a : Aggregate I V σ} (h : restoreAggregate T log id snapshot = some a) :
    a.id = id ∧ a.changes = [] :=
  ⟨(AggregateType.mutateAll_spec h).1, (AggregateType.mutateAll_spec h).2.1⟩

/-- The version restored is the next, from whichever snapshot. -/
theorem Ordered.restored {log : List (Event I V)} {id : I} (hl : Ordered log id)
    {snapshot : Option (Event I V)} (hs : isSnapshotOf log id snapshot) {a : Aggregate I V σ}
    (h : restoreAggregate T log id snapshot = some a) : a.version = next log id := by
  unfold restoreAggregate at h
  rw [AggregateType.getAggregateEvents_eq] at h
  rcases snapshot with _ | S
  · rw [AggregateType.allAfterSnapshot_none] at h
    rcases List.eq_nil_or_concat' (stored log id) with hnil | ⟨l, e, hst⟩
    · rw [hnil] at h
      obtain rfl := Option.some.inj h
      simp [next, hnil, AggregateType.create]
    · obtain ⟨v, hv, -⟩ := hl e (by simp [hst])
      rw [hst] at h
      rw [AggregateType.mutateAll_query_concat hv h, next_concat hst hv]
  · have hS : S ∈ stored log id := by
      simp only [isSnapshotOf, Option.all_some, Bool.and_eq_true, decide_eq_true_eq] at hs
      exact hs.2
    obtain ⟨k, hk, hlt⟩ := hl S hS
    obtain ⟨l, e, hst⟩ := (List.eq_nil_or_concat' (stored log id)).resolve_left
      (List.ne_nil_of_mem hS)
    obtain ⟨v, hv, -⟩ := hl e (by simp [hst])
    have hnext := next_concat hst hv
    rw [AggregateType.allAfterSnapshot_filter hk] at h
    by_cases hpast : k = 0 ∨ k < v
    · rw [hst, List.filter_append, List.filter_cons_of_pos (by simpa [hv] using hpast),
        List.filter_nil] at h
      rw [AggregateType.mutateAll_query_concat hv h, hnext]
    · -- nothing is past the snapshot, which is of the last version
      have hnil : (stored log id).filter (fun e => k = 0 || e.aggregateVersion.any (k < ·)) = [] :=
        List.filter_eq_nil_iff.2 fun e' he' => by
          obtain ⟨v', hv', hlt'⟩ := hl e' he'
          simp only [hv', Option.any_some, Bool.or_eq_true, decide_eq_true_eq]
          omega
      rw [hnil] at h
      have hver := AggregateType.mutateAll_version
        (show T.mutateAll _ ([] ++ [S]) = some a from h) hk
      omega

omit [DecidableEq V] in
/-- A new instance whose version is the next is past all that is stored. -/
theorem Ordered.ahead {eventStorage : InMemoryEventStorage I V} {a : Aggregate I V σ}
    (hl : Ordered eventStorage.events a.id) (hchanges : a.changes = [])
    (hv : a.version = next eventStorage.events a.id) : Ahead T eventStorage a.id a := by
  have hlt : ∀ e ∈ eventStorage.events, e.aggregateId = some a.id →
      ∀ v ∈ e.aggregateVersion, v < a.version := by
    intro e he hid v hev
    obtain ⟨u, hu, hlt⟩ := hl e (List.mem_filter.2 ⟨he, by simpa using hid⟩)
    obtain rfl : u = v := Option.some.inj (hu.symm.trans hev)
    exact hv ▸ hlt
  refine ⟨hlt, fun command methods shouldTakeSnapshot events he => ?_⟩
  -- the versions of what it emits go on from its own
  have hw := (Working.Numbers.calls (T := T) methods
    ((Working.Numbers.init hchanges).handle command)).returns (T := T) shouldTakeSnapshot
  obtain ⟨⟨k, hk, hn⟩, hid⟩ := hw.batches events he
  refine ⟨_, InMemoryEventStorage.commitEvents_ok ?_⟩
  rintro ⟨-, e, hemem, hc⟩
  rw [conflict_eq_none hid hn (fun e he hid v hev =>
    Nat.lt_of_lt_of_le (hlt e he hid v hev) hk) hemem] at hc
  cases hc

/-! ## What steps keep -/

structure Inv (s : ForcedCommits I V σ) : Prop where
  ordered : ∀ id, Ordered s.eventStorage.events id
  numbers : ∀ i w, s.instances i = some w → ∃ start, w.Numbers w.aggregate.id start

/-- The batch ends past all that is stored of its aggregate. -/
def EndsPast (log events : List (Event I V)) : Prop :=
  ∀ last ∈ events.getLast?, ∀ v ∈ last.aggregateVersion, ∀ e ∈ log,
    e.aggregateId = last.aggregateId → ∀ u ∈ e.aggregateVersion, u ≤ v

/-- A batch that is stored, being forced or meeting no stored version, ends past what is stored. -/
def Reaches (s : ForcedCommits I V σ) : Action I V → Prop
  | .commit i k ignoreConcurrencyError => ∀ w ∈ s.instances i, ∀ events ∈ w.batches[k]?,
    ¬ InMemoryEventStorage.Conflicts s.eventStorage events ignoreConcurrencyError →
      EndsPast s.eventStorage.events events
  | _ => True

variable {s s' : ForcedCommits I V σ} {i : ℕ} {w : Working I V σ}

omit [DecidableEq V] [Truthy V] in
theorem Inv.setInstance (h : Inv s) {w : Option (Working I V σ)}
    (hw : ∀ w' ∈ w, ∃ start, w'.Numbers w'.aggregate.id start) : Inv (s.setInstance i w) := by
  refine ⟨h.ordered, fun j w' hj => ?_⟩
  by_cases hij : j = i
  · subst hij
    exact hw w' (by simpa [ForcedCommits.setInstance] using hj)
  · exact h.numbers j w' (by simpa [ForcedCommits.setInstance, hij] using hj)

omit [DecidableEq V] [Truthy V] in
/-- An instance goes on. -/
theorem Inv.goOn (h : Inv s) (hw : s.instances i = some w) {w' : Working I V σ}
    (hgo : ∀ id start, w.Numbers id start → w'.Numbers id start) : Inv (s.setInstance i w') := by
  refine h.setInstance fun w'' hw'' => ?_
  obtain rfl : w' = w'' := Option.some.inj hw''
  obtain ⟨start, hn⟩ := h.numbers i w hw
  have hn' := hgo _ start hn
  exact ⟨start, hn'.aggregate.symm ▸ hn'⟩

theorem Inv.restoresAhead (h : Inv s) : RestoresAhead T s := by
  intro id snapshot hs a ha
  obtain ⟨rfl, hchanges⟩ := restoreAggregate_spec ha
  exact (h.ordered _).ahead hchanges ((h.ordered _).restored hs ha)

omit [DecidableEq V] [Truthy V] in
theorem Inv.commit (h : Inv s) {k : ℕ} {ignoreConcurrencyError : Bool}
    (hC : Reaches s (.commit i k ignoreConcurrencyError)) (hw : s.instances i = some w)
    {events : List (Event I V)} (hk : w.batches[k]? = some events)
    (hc : ¬ InMemoryEventStorage.Conflicts s.eventStorage events ignoreConcurrencyError)
    {eventStorage : InMemoryEventStorage I V}
    (hlog : eventStorage.events = s.eventStorage.events ++ events) :
    Inv { s with eventStorage } := by
  obtain ⟨start, hn⟩ := h.numbers i w hw
  obtain ⟨⟨first, -, hnum⟩, hid⟩ := hn.batches events (List.mem_of_getElem? hk)
  refine ⟨fun id => ?_, h.numbers⟩
  show Ordered eventStorage.events id
  rw [hlog]
  refine (h.ordered id).append hid hnum fun hne => ?_
  obtain ⟨l, last, rfl⟩ := (List.eq_nil_or_concat' events).resolve_left hne
  have hlast : last.aggregateVersion = some (first + l.length) := (Numbered.append_iff.1 hnum).2.1
  refine next_le fun e he u hu => ?_
  obtain ⟨he, heid⟩ := List.mem_filter.1 he
  have hle := hC w hw _ hk hc last (by simp) _ hlast e he
    ((of_decide_eq_true heid).trans (hid last (by simp)).symm) u hu
  rw [List.length_append, List.length_singleton]
  omega

theorem inv_step (h : Inv s) {x : Action I V} (hC : Reaches s x) (hst : step T s x = some s') :
    Inv s' := by
  cases x with
  | restore i id snapshot =>
    rw [step] at hst
    split_ifs at hst with hs
    obtain rfl := Option.some.inj hst
    refine h.setInstance fun w hw => ?_
    obtain ⟨a, ha, rfl⟩ := Option.map_eq_some_iff.1 hw
    exact ⟨a.version, .init (restoreAggregate_spec ha).2⟩
  | handle i command =>
    obtain ⟨w, hw, rfl⟩ := Option.map_eq_some_iff.1 hst
    exact h.goOn hw fun _ _ hn => hn.handle command
  | call i method =>
    obtain ⟨w, hw, rfl⟩ := Option.map_eq_some_iff.1 hst
    exact h.goOn hw fun _ _ hn => hn.call method
  | returns i shouldTakeSnapshot =>
    obtain ⟨w, hw, hst⟩ := Option.bind_eq_some_iff.1 hst
    split_ifs at hst
    obtain rfl := Option.some.inj hst
    exact h.goOn hw fun _ _ hn => hn.returns shouldTakeSnapshot
  | throws i =>
    obtain ⟨w, hw, rfl⟩ := Option.map_eq_some_iff.1 hst
    exact h.goOn hw fun _ _ hn => hn.throws
  | commit i k ignoreConcurrencyError =>
    obtain ⟨w, hw, hst⟩ := Option.bind_eq_some_iff.1 hst
    obtain ⟨events, hk, rfl⟩ := Option.map_eq_some_iff.1 hst
    by_cases hc : InMemoryEventStorage.Conflicts s.eventStorage events ignoreConcurrencyError
    · obtain ⟨error, he⟩ := InMemoryEventStorage.commitEvents_error hc
      rw [he]
      exact h
    · rw [InMemoryEventStorage.commitEvents_ok hc]
      exact h.commit hC hw hk hc rfl

omit [DecidableEq V] [Truthy V] in
theorem inv_init : Inv ({} : ForcedCommits I V σ) := by
  refine ⟨fun id e he => ?_, fun i w hi => ?_⟩
  · have hnil : e ∈ ([] : List (Event I V)) := he
    simp at hnil
  · cases hi

theorem reach_inv (h : (machine T).ReachIf Reaches s) : Inv s :=
  Machine.ReachIf.invariant (P := Inv) (fun s h0 => (show s = {} from h0) ▸ inv_init)
    (fun _ _ _ h hC hst => inv_step h hC hst) h

/-- As long as each batch that is stored ends past what is stored, whatever is restored is ahead. -/
theorem restores_ahead (h : (machine T).ReachIf Reaches s) : RestoresAhead T s :=
  (reach_inv h).restoresAhead

/-- A commit after which what is restored is ahead, if it stored its batch, stored one that ends
past what was stored. -/
theorem reaches_of_ahead (h : Inv s) (hw : s.instances i = some w) {k : ℕ}
    {ignoreConcurrencyError : Bool}
    (hst : step T s (.commit i k ignoreConcurrencyError) = some s') {a : Aggregate I V σ}
    (ha : restoreAggregate T s'.eventStorage.events w.aggregate.id none = some a)
    (hA : Ahead T s'.eventStorage w.aggregate.id a) :
    Reaches s (.commit i k ignoreConcurrencyError) := by
  intro w' hw' events hk hc last hl v hv e he heid u hu
  obtain rfl : w = w' := Option.some.inj (hw.symm.trans hw')
  obtain ⟨start, hn⟩ := h.numbers i w hw
  obtain ⟨-, hid⟩ := hn.batches events (List.mem_of_getElem? hk)
  have hlog : s'.eventStorage.events = s.eventStorage.events ++ events := by
    simp only [step, hw, Option.bind_some, show w.batches[k]? = some events from hk,
      Option.map_some, InMemoryEventStorage.commitEvents_ok hc] at hst
    exact (Option.some.inj hst) ▸ rfl
  obtain ⟨l, rfl⟩ := List.getLast?_eq_some_iff.1 hl
  have hrestored : a.version = v + 1 := by
    unfold restoreAggregate at ha
    rw [AggregateType.getAggregateEvents_eq, AggregateType.allAfterSnapshot_none, hlog,
      AggregateType.stored_append hid, if_pos rfl, ← List.append_assoc] at ha
    exact AggregateType.mutateAll_query_concat hv ha
  have hlt := hA.version e (by rw [hlog]; exact List.mem_append_left _ he)
    (heid.trans (hid last (by simp))) u hu
  omega

omit [DecidableEq V] [Truthy V] in
instance (log events : List (Event I V)) : Decidable (EndsPast log events) :=
  inferInstanceAs (Decidable (∀ last ∈ events.getLast?, ∀ v ∈ last.aggregateVersion, ∀ e ∈ log,
    e.aggregateId = last.aggregateId → ∀ u ∈ e.aggregateVersion, u ≤ v))

omit [DecidableEq V] [Truthy V] in
instance (s : ForcedCommits I V σ) : ∀ x, Decidable (Reaches s x)
  | .commit i k ignoreConcurrencyError =>
    have (events : List (Event I V)) : Decidable
        (InMemoryEventStorage.Conflicts s.eventStorage events ignoreConcurrencyError) :=
      inferInstanceAs (Decidable (_ ∧ ∃ e ∈ events, _))
    inferInstanceAs (Decidable (∀ w ∈ s.instances i, ∀ events ∈ w.batches[k]?,
      ¬ InMemoryEventStorage.Conflicts s.eventStorage events ignoreConcurrencyError →
        EndsPast s.eventStorage.events events))
  | .restore _ _ _ | .handle _ _ | .call _ _ | .returns _ _ | .throws _ => isTrue trivial

/-- An aggregate that counts its events, and throws at those with a payload. -/
def counter : AggregateType String ℕ ℕ where
  state _ := 0
  handler state event := (state + 1, event.payload = 0)
  makeSnapshot state := some state
  restoreSnapshot _ payload := some payload

/-- A command whose handler emits for each of the payloads. -/
def increment (i : ℕ) (payloads : List ℕ) : List (Action String ℕ) :=
  .handle i { type := "increment", aggregateId := some "a", payload := 0 } ::
    payloads.map (fun payload => .call i (.emit "incremented" payload)) ++ [.returns i false]

/-- Of two instances of an empty aggregate, the first commits its events, and the second forces
its. -/
def forced (payloads payloads' : List ℕ) : List (Action String ℕ) :=
  [.restore 0 "a" none, .restore 1 "a" none] ++ increment 0 payloads ++ increment 1 payloads'
    ++ [.commit 0 0 false, .commit 1 0 true]

/-- The second's handler catches what an `emit` throws. -/
theorem restores_ahead_forced : ∃ s, (machine counter).run {} (forced [0] [0, 1, 0]) = some s
    ∧ s.eventStorage.events.map (·.aggregateVersion) = [some 0, some 0, some 1]
    ∧ RestoresAhead counter s := by
  obtain ⟨s, hs, hlog⟩ : ∃ s, (machine counter).run {} (forced [0] [0, 1, 0]) = some s
      ∧ s.eventStorage.events.map (·.aggregateVersion) = [some 0, some 0, some 1] := ⟨_, rfl, rfl⟩
  exact ⟨s, hs, hlog,
    restores_ahead ((Machine.ReachIf.init (C := Reaches) rfl).run (by decide) hs)⟩

/-- What is restored has a version that is stored already: after a forced batch that ends below, and
also after one instance's two batches are committed the later one first. -/
theorem restores_ahead_fails :
    (¬ ∀ s, (machine counter).Reach s → RestoresAhead counter s)
    ∧ ¬ ∀ s, (machine counter).ReachIf (fun _ x => ∀ i k, x ≠ .commit i k true) s →
      RestoresAhead counter s := by
  constructor <;> intro hall
  · obtain ⟨s, hs, a, ha, hv, e, he, hid, hev⟩ : ∃ s,
        (machine counter).run {} (forced [0, 0] [0]) = some s
        ∧ ∃ a, restoreAggregate counter s.eventStorage.events "a" none = some a ∧ a.version = 1
        ∧ ∃ e ∈ s.eventStorage.events, e.aggregateId = some "a" ∧ e.aggregateVersion = some 1 := by
      refine ⟨_, rfl, _, rfl, rfl, _, List.mem_cons_of_mem _ List.mem_cons_self, rfl, rfl⟩
    have hlt := (hall s (Machine.reach_of_run rfl hs) "a" none rfl a ha).version e he hid 1 hev
    omega
  · obtain ⟨s, hs, a, ha, hv, e, he, hid, hev⟩ : ∃ s, (machine counter).run {}
        (.restore 0 "a" none :: increment 0 [0] ++ increment 0 [0]
          ++ [.commit 0 1 false, .commit 0 0 false]) = some s
        ∧ ∃ a, restoreAggregate counter s.eventStorage.events "a" none = some a ∧ a.version = 1
        ∧ ∃ e ∈ s.eventStorage.events, e.aggregateId = some "a" ∧ e.aggregateVersion = some 1 := by
      refine ⟨_, rfl, _, rfl, rfl, _, List.mem_cons_self, rfl, rfl⟩
    have h := (Machine.ReachIf.init (M := machine counter)
      (C := fun _ x => ∀ i k, x ≠ .commit i k true) rfl).run
      (.of_forall fun x hx _ i k => by rintro rfl; simp [increment] at hx) hs
    have hlt := (hall s h "a" none rfl a ha).version e he hid 1 hev
    omega

end ForcedCommits

end NodeCqrs
