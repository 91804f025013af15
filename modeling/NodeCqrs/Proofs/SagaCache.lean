import Mathlib.Data.Fintype.Basic
import NodeCqrs.Proofs.SagaId
import NodeCqrs.Proofs.SagaInstances
import NodeCqrs.Proofs.SqliteEventStorage

/-!
# Shared and restored sagas

A saga that is restored has applied every stored event that carries its origin, one in the cache
those it was handed. Where a call finds the instance in use, the two agree if the saga ignores the
events that are stored between (`Follows`), and then every call's event is handled on the state a
restored saga has (`handled_on_restored`). They do not when it reacts to an event that it is not
subscribed to (`handled_on_restored_fails`).
-/

namespace NodeCqrs

open SqliteEventStorage

namespace SagaEventHandler

variable {V σ : Type} {T : SagaType String V σ}
  {s s' : SagaEventHandler String V σ (SqliteEventStorage V)}
  {eventStore eventStore' : SqliteEventStorage V} {log : List (Event String V)}

/-- `mutate` leaves any state as it is. -/
def Ignores (T : SagaType String V σ) (event : Event String V) : Prop :=
  ∀ state, T.mutate state event = state

/-- The first of the events is to `mutate` what `event` is, and it ignores those after it. -/
def IgnoresAfter (T : SagaType String V σ) (event : Event String V) : List (Event String V) → Prop
  | [] => False
  | event' :: between =>
    (∀ state, T.mutate state event' = T.mutate state event) ∧ ∀ e ∈ between, Ignores T e

/-- The origin's row is not after the first one, which is before the second. From the first up to the
second, the saga's events are `event`, as it is read back, and such that it ignores. -/
def IgnoresBetween (T : SagaType String V σ) (eventStore : SqliteEventStorage V)
    (sagaOrigin : String) (event : Event String V) : Option ℕ → Option ℕ → Option ℕ → Prop
  | some originRowid, some rowid', some rowid => originRowid ≤ rowid' ∧ rowid' < rowid
    ∧ IgnoresAfter T event ((eventStore.sagaEvents T.sagaDescriptor (guid sagaOrigin) rowid'
        rowid).map eventStore.reconstructEvent)
  | _, _, _ => False

/-- The event of a call is no starter and stored after that of the call it finds last in line, and
the saga ignores what is stored of its events between the two. -/
def Follows (T : SagaType String V σ) (eventStore : SqliteEventStorage V)
    (call' call : SagaCall String V) : Prop :=
  T.sagaFor call.event = .ok (.restoreSaga call.sagaId call.event, call.sagaId, call.sagaOrigin)
  ∧ parseSagaId call.sagaId = .ok (T.sagaDescriptor, call.sagaOrigin)
  ∧ IgnoresBetween T eventStore call.sagaOrigin call'.event
    (eventStore.getRowid (guid call.sagaOrigin)) (eventStore.getRowid (idOf call'.event))
    (eventStore.getRowid (idOf call.event))

theorem foldl_of_ignores {events : List (Event String V)} (h : ∀ e ∈ events, Ignores T e)
    (state : σ) : events.foldl T.mutate state = state := by
  induction events with
  | nil => rfl
  | cons e events ih =>
    rw [List.foldl_cons, h e (List.mem_cons_self ..)]
    exact ih fun e he => h e (List.mem_cons_of_mem _ he)

theorem IgnoresAfter.foldl {event : Event String V} {events : List (Event String V)}
    (h : IgnoresAfter T event events) (state : σ) :
    events.foldl T.mutate state = T.mutate state event := by
  cases events with
  | nil => exact absurd h not_false
  | cons event' between => rw [List.foldl_cons, foldl_of_ignores h.2, h.1]

/-- What the store has more does not change what a saga is restored to. -/
theorem Made.commitEvents (h : Stored eventStore log) {events : List (Event String V)}
    {ignoreConcurrencyError : Bool}
    (hc : eventStore.commitEvents events ignoreConcurrencyError = .ok eventStore')
    {call : SagaCall String V} {state : σ} (hm : Made T.overSqlite eventStore call state) :
    Made T.overSqlite eventStore' call state := by
  obtain ⟨factory, hf, hm⟩ := hm
  refine ⟨factory, hf, ?_⟩
  cases factory with
  | createSaga id => exact hm
  | restoreSaga id event =>
    rcases hok : eventStore.getSagaEvents id event with error | events'
    · simp [SagaOptions.make, SagaType.overSqlite, hok, Except.map] at hm
    · simpa [SagaOptions.make, SagaType.overSqlite, hok,
        getSagaEvents_commitEvents h hc hok] using hm

theorem Follows.links (h : Stored eventStore log) {call' call : SagaCall String V}
    {factory : SagaFactory String V}
    (hf : T.sagaFor call'.event = .ok (factory, call'.sagaId, call'.sagaOrigin))
    (hid : call'.sagaId = call.sagaId) (hfollows : Follows T eventStore call' call) :
    Links T.overSqlite eventStore call' call := by
  obtain ⟨hcall, hparse, hrows⟩ := hfollows
  unfold IgnoresBetween at hrows
  split at hrows
  case h_2 => exact absurd hrows not_false
  rename_i originRowid rowid' rowid hro hr' hr
  obtain ⟨hle, hlt, hbetween⟩ := hrows
  obtain ⟨i, starter, hi, hsid, rfl⟩ := h.holds.of_getRowid hro
  obtain ⟨k, e', hk, heid', rfl⟩ := h.holds.of_getRowid hr'
  obtain ⟨j, e, hj, heid, rfl⟩ := h.holds.of_getRowid hr
  obtain ⟨hne, hmk, hevent⟩ := SagaType.sagaFor_ok hcall
  obtain ⟨hne', hmk', hevent'⟩ := SagaType.sagaFor_ok hf
  have horigin : call'.sagaOrigin = call.sagaOrigin := makeSagaId_inj (hid ▸ hmk') hmk
  have hso : call.event.sagaOrigin T.sagaDescriptor = some call.sagaOrigin := by
    rcases hevent with ⟨hcreate, -⟩ | ⟨-, hso⟩
    · cases hcreate
    · exact hso
  have hok := getSagaEvents_eq h hparse hne hso hi hsid hj heid
  rw [h.holds.sagaEvents] at hbetween
  -- what the first call was made of
  have hmake : T.overSqlite.make eventStore factory = .ok ((((log.take k).drop i).filter
      (inSaga T.sagaDescriptor (guid call.sagaOrigin))).map SqliteEventStorage.stored |>.foldl
        T.mutate (T.sagaFactory call.sagaId)) := by
    rcases hevent' with ⟨rfl, hstarter⟩ | ⟨rfl, hso'⟩
    · obtain rfl : i = k := h.holds.position_unique hi hk (by
        rw [hsid, heid', idOf, hstarter, horigin]
        rfl)
      rw [List.drop_take_self, ← hid]
      rfl
    · have hok' := getSagaEvents_eq h (hid ▸ hparse) hne' (horigin ▸ hso') hi hsid hk heid'
      show (eventStore.getSagaEvents call'.sagaId call'.event).map
        (·.foldl T.mutate (T.sagaFactory call'.sagaId)) = _
      rw [hok', hid]
      rfl
  refine ⟨_, ⟨factory, hf, hmake⟩, _, hcall, ?_⟩
  have hsplit : (log.take j).drop i = (log.take k).drop i ++ (log.take j).drop k := by
    have hlen := (List.getElem?_eq_some_iff.1 hk).1
    have htake : log.take j = log.take k ++ (log.take j).drop k := by
      conv_lhs => rw [← List.take_append_drop k (log.take j)]
      rw [List.take_take, Nat.min_eq_left (by omega)]
    conv_lhs => rw [htake]
    exact List.drop_append_of_le_length (by rw [List.length_take]; omega)
  simp only [SagaOptions.make, SagaType.overSqlite, hok, Except.map, hsplit, List.filter_append,
    List.map_append, List.foldl_append, hbetween.foldl]

/-- What holds at any time of a saga over `SqliteEventStorage`. -/
structure Restores (T : SagaType String V σ)
    (s : SagaEventHandler String V σ (SqliteEventStorage V)) : Prop where
  counts : Counts s
  began : Began T.overSqlite s
  agrees : Agrees T.overSqlite s
  stored : ∃ log, Stored s.eventStore log

theorem Restores.orderly (h : Restores T s) {a : Action String V}
    (hC : Orderly T.overSqlite (Follows T) s a) : Orderly T.overSqlite (Links T.overSqlite) s a := by
  cases a with
  | handle c event =>
    intro x hx saga hsaga hne c' hc' call' hcall'
    obtain ⟨log, hlog⟩ := h.stored
    obtain ⟨factory, hf⟩ := h.began c' call' hcall'
    refine Follows.links hlog hf ?_ (hC x hx saga hsaga hne c' hc' call' hcall')
    obtain ⟨promise, rs, ws, hl⟩ := h.agrees.line x.2.1 saga hsaga
    rw [hl.requests, hl.waiters, ← List.map_append] at hc'
    obtain ⟨⟨c', call⟩, hm, rfl⟩ := List.mem_map.1 (List.mem_of_getLast? hc')
    obtain ⟨hcall, hid, -⟩ := (hl.mem_iff c' call).1 hm
    obtain rfl : call = call' := Option.some.inj (hcall.symm.trans hcall')
    exact hid
  | commitEvents | settled | awaited | acquired | acquireRejects | handled | sent => exact hC

theorem restores_step {a : Action String V} (h : Restores T s)
    (hC : Orderly T.overSqlite (Follows T) s a) (hst : step T.overSqlite s a = some s') :
    Restores T s' := by
  obtain ⟨log, hlog⟩ := h.stored
  obtain ⟨hm, hlog'⟩ : (∀ call state, Made T.overSqlite s.eventStore call state →
      Made T.overSqlite s'.eventStore call state) ∧ ∃ log, Stored s'.eventStore log := by
    rcases eventStore_step hst with hs | ⟨events, ignoreConcurrencyError, hs⟩
    · rw [hs]
      exact ⟨fun _ _ hm => hm, log, hlog⟩
    · have hc : s.eventStore.commitEvents events ignoreConcurrencyError = .ok s'.eventStore := by
        rcases hok : s.eventStore.commitEvents events ignoreConcurrencyError with error | t
        · simp [SagaType.overSqlite, hok, Except.toOption] at hs
        · rw [show t = s'.eventStore by simpa [SagaType.overSqlite, hok, Except.toOption] using hs]
      exact ⟨fun call state => Made.commitEvents hlog hc, _, hlog.commitEvents hc⟩
  exact ⟨counts_step h.counts hst, began_step h.began hst,
    agrees_step h.agrees h.counts (h.orderly hC) hm hst, hlog'⟩

theorem reach_restores
    (h : (machine T.overSqlite {}).ReachIf (Orderly T.overSqlite (Follows T)) s) :
    Restores T s := by
  refine Machine.ReachIf.invariant (P := Restores T) (fun t h0 => ?_)
    (fun _ _ _ hs hC hst => restores_step hs hC hst) h
  obtain rfl : t = { eventStore := {} } := h0
  refine ⟨counts_init _, ?_, ?_, [], .empty⟩
  · intro c call hc
    cases hc
  · refine ⟨fun _ => rfl, fun _ _ => rfl, fun _ _ => rfl, ?_, ?_⟩
    · intro id id' saga hid
      cases hid
    · intro id saga hid
      cases hid

/-- Each event is handled on the state a saga restored for it has. -/
theorem handled_on_restored
    (h : (machine T.overSqlite {}).ReachIf (Orderly T.overSqlite (Follows T)) s) {c : ℕ}
    {call : SagaCall String V} (hc : s.calls c = some call) (ha : call.await = .handle) :
    ∃ factory state, T.sagaFor call.event = .ok (factory, call.sagaId, call.sagaOrigin)
      ∧ T.overSqlite.make s.eventStore factory = .ok state
      ∧ s.sagas[call.saga]? = some (.resolved state) := by
  have hr := reach_restores h
  obtain ⟨saga, promise, rs, ws, hid, hl⟩ := hr.counts.entry hr.agrees hc
  obtain ⟨rs, rfl⟩ := hl.working hc rfl (.inl ha)
  obtain ⟨state, rfl⟩ := hl.resolved
  obtain ⟨factory, hf, hm⟩ :=
    (stands_iff (by simp [ha])).1 (hl.serving.resolved state rfl (c, call) (by simp))
  exact ⟨factory, state, hf, hm, (hl.calls c call hc rfl).1 ▸ hl.sagas⟩

section decidable

variable [Fintype σ] [DecidableEq σ]

instance (event : Event String V) : Decidable (Ignores T event) :=
  inferInstanceAs (Decidable (∀ state, T.mutate state event = state))

instance (event : Event String V) : ∀ events, Decidable (IgnoresAfter T event events)
  | [] => isFalse not_false
  | _ :: _ => inferInstanceAs (Decidable (_ ∧ _))

instance (eventStore : SqliteEventStorage V) (sagaOrigin : String) (event : Event String V) :
    ∀ originRowid rowid' rowid,
      Decidable (IgnoresBetween T eventStore sagaOrigin event originRowid rowid' rowid)
  | some _, some _, some _ => inferInstanceAs (Decidable (_ ∧ _ ∧ _))
  | none, _, _ | some _, none, _ | some _, some _, none => isFalse not_false

variable [DecidableEq V]

instance (eventStore : SqliteEventStorage V) (call' call : SagaCall String V) :
    Decidable (Follows T eventStore call' call) := inferInstanceAs (Decidable (_ ∧ _ ∧ _))

instance (s : SagaEventHandler String V σ (SqliteEventStorage V)) :
    ∀ a, Decidable (Orderly T.overSqlite (Follows T) s a)
  | .handle _ event => inferInstanceAs (Decidable (∀ x ∈ (T.sagaFor event).toOption,
      ∀ saga ∈ s.sagasCache.entries x.2.1, s.sagas[saga]? ≠ some .rejected →
      ∀ c' ∈ (s.requests x.2.1 ++ s.waiters saga).getLast?, ∀ call' ∈ s.calls c',
        Follows T s.eventStore call' { event, sagaId := x.2.1, sagaOrigin := x.2.2, saga }))
  | .acquired c => inferInstanceAs (Decidable (∀ call ∈ s.calls c,
      (s.requests call.sagaId).head? = some c))
  | .acquireRejects _ => isFalse not_false
  | .handled _ commands => inferInstanceAs (Decidable (commands.isSome = true))
  | .sent _ resolved => inferInstanceAs (Decidable (resolved = true))
  | .commitEvents .. | .settled .. | .awaited _ => isTrue trivial

end decidable

/-- The stored events are delivered in the order they were stored, a lock is granted in the order of
the requests, and nothing fails. -/
def Delivers (T : SagaType String V σ) (s : SagaEventHandler String V σ (SqliteEventStorage V)) :
    Action String V → Prop
  | .handle _ event => ((s.eventStore.events.map s.eventStore.reconstructEvent).filter
      (·.type ∈ T.messageTypes))[s.delivered.length]? = some event
  | .settled _ resolved | .sent _ resolved => resolved = true
  | .acquired c => ∀ call ∈ s.calls c, (s.requests call.sagaId).head? = some c
  | .acquireRejects _ => False
  | .handled _ commands => commands.isSome = true
  | .commitEvents .. | .awaited _ => True

instance [DecidableEq V] (s : SagaEventHandler String V σ (SqliteEventStorage V)) :
    ∀ a, Decidable (Delivers T s a)
  | .handle _ _ => inferInstanceAs (Decidable (_ = _))
  | .settled _ resolved | .sent _ resolved => inferInstanceAs (Decidable (resolved = true))
  | .acquired c => inferInstanceAs (Decidable (∀ call ∈ s.calls c,
      (s.requests call.sagaId).head? = some c))
  | .acquireRejects _ => isFalse not_false
  | .handled _ commands => inferInstanceAs (Decidable (commands.isSome = true))
  | .commitEvents .. | .awaited _ => isTrue trivial

/-- A saga that has an order paid, and keeps whether something is due. -/
def billing : SagaType String ℕ Bool where
  sagaDescriptor := "Billing"
  startsWith := some ["ordered"]
  handles := ["paid"]
  sagaFactory _ := false
  mutate due event :=
    match event.type with
    | "ordered" => true
    | "paid" => false
    | "cancelled" => false
    | _ => due

def ordered : Event String ℕ := { id := some "a1", type := "ordered", payload := 100 }

def paid : Event String ℕ :=
  { id := some "a3", type := "paid", sagaOrigins := some [("Billing", "a1")], payload := 80 }

/-- The payment comes, after `events`, while the order is handled. -/
def overlapped (events : List (Event String ℕ)) : List (Action String ℕ) := [
  .commitEvents [ordered] false, .handle 0 ordered, .settled 0 true, .awaited 0, .acquired 0,
  .handled 0 (some [{ type := "collect", payload := 100 }]),
  .commitEvents (events ++ [paid]) false, .handle 1 paid, .sent 0 true, .awaited 0, .acquired 1]

/-- An event of the saga that is nothing to it. -/
def noted : Event String ℕ :=
  { id := some "a2", type := "noted", sagaOrigins := some [("Billing", "a1")], payload := 0 }

theorem handled_on_restored_overlapped : ∃ s,
    (machine billing.overSqlite {}).run { eventStore := {} } (overlapped [noted]) = some s
      ∧ ∃ call, s.calls 1 = some call ∧ call.event = paid ∧ ∃ factory state,
        billing.sagaFor paid = .ok (factory, call.sagaId, call.sagaOrigin)
        ∧ billing.overSqlite.make s.eventStore factory = .ok state
        ∧ s.sagas[call.saga]? = some (.resolved state) := by
  obtain ⟨s, hs, call, hc, he, ha⟩ : ∃ s,
      (machine billing.overSqlite {}).run { eventStore := {} } (overlapped [noted]) = some s
      ∧ ∃ call, s.calls 1 = some call ∧ call.event = paid ∧ call.await = .handle :=
    ⟨_, rfl, _, rfl, rfl, rfl⟩
  have h := (Machine.ReachIf.init (C := Orderly billing.overSqlite (Follows billing)) rfl).run
    (by decide) hs
  exact ⟨s, hs, call, hc, he, he ▸ handled_on_restored h hc ha⟩

/-- The saga is not subscribed to it. -/
def cancelled : Event String ℕ :=
  { id := some "a2", type := "cancelled", sagaOrigins := some [("Billing", "a1")], payload := 0 }

theorem handled_on_restored_fails :
    ¬ ∀ s, (machine billing.overSqlite {}).ReachIf (Delivers billing) s → ∀ c call,
      s.calls c = some call → call.await = .handle →
        ∃ factory state, billing.sagaFor call.event = .ok (factory, call.sagaId, call.sagaOrigin)
          ∧ billing.overSqlite.make s.eventStore factory = .ok state
          ∧ s.sagas[call.saga]? = some (.resolved state) := by
  intro hall
  obtain ⟨s, hs, call, hc, he, ha, hsaga, hmake⟩ : ∃ s,
      (machine billing.overSqlite {}).run { eventStore := {} } (overlapped [cancelled]) = some s
      ∧ ∃ call, s.calls 1 = some call ∧ call.event = paid ∧ call.await = .handle
      ∧ s.sagas[call.saga]? = some (.resolved true)
      ∧ billing.overSqlite.make s.eventStore (.restoreSaga "Billing:a1" paid) = .ok false :=
    ⟨_, rfl, _, rfl, rfl, rfl, rfl, rfl⟩
  have h := (Machine.ReachIf.init (C := Delivers billing) rfl).run (by decide) hs
  obtain ⟨factory, state, hf, hm, hstate⟩ := hall s h 1 call hc ha
  rw [he] at hf
  have hfactory : billing.sagaFor paid = .ok (.restoreSaga "Billing:a1" paid, "Billing:a1", "a1") :=
    rfl
  obtain rfl : .restoreSaga "Billing:a1" paid = factory :=
    congrArg Prod.fst (Except.ok.inj (hfactory.symm.trans hf))
  obtain rfl : false = state := Except.ok.inj (hmake.symm.trans hm)
  rw [hsaga] at hstate
  cases hstate

end SagaEventHandler

end NodeCqrs
