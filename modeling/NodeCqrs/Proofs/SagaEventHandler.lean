import NodeCqrs.Proofs.MapAssertable
import NodeCqrs.SagaEventHandler

/-!
# The steps of a saga's `handle` calls, and its cache

What a step can do (`Effect`). The cache counts a saga once for each of its calls, those included
that have ended before their `try` block (`reach_counts`); while there are none of these, it has
nothing for a saga without calls in flight (`sagas_released`). A call whose saga cannot be made or
restored is one (`sagas_released_fails`).
-/

namespace NodeCqrs

namespace SagaType

variable {I V σ : Type} {T : SagaType I V σ}

theorem sagaOrigin_ok {event : Event I V} {isStarterEvent : Bool} {origin : String}
    (h : T.sagaOrigin event = .ok (isStarterEvent, origin)) :
    if isStarterEvent then event.id = some origin
    else event.sagaOrigin T.sagaDescriptor = some origin := by
  unfold SagaType.sagaOrigin at h
  extract_lets sagaOriginFromEvent starter at h
  split_ifs at h with hs hst
  · rcases ho : event.id with _ | o
    · simp [ho] at h
    · obtain ⟨rfl, rfl⟩ : starter = isStarterEvent ∧ o = origin := by simpa [ho] using h
      rw [if_pos hst]
  · rcases ho : sagaOriginFromEvent with _ | o
    · simp [ho] at h
    · obtain ⟨rfl, rfl⟩ : starter = isStarterEvent ∧ o = origin := by simpa [ho] using h
      rw [if_neg hst]
      exact (Option.filter_eq_some_iff.1 ho).1

/-- How the saga of an event is found. -/
theorem sagaFor_eq_ok {event : Event I V} {factory : SagaFactory I V} {sagaId origin : String}
    (h : T.sagaFor event = .ok (factory, sagaId, origin)) :
    event.id.getD "" ≠ "" ∧ makeSagaId T.sagaDescriptor origin = .ok sagaId
    ∧ ∃ isStarterEvent : Bool, T.sagaOrigin event = .ok (isStarterEvent, origin)
      ∧ factory = if isStarterEvent then .createSaga sagaId else .restoreSaga sagaId event := by
  by_cases htype : event.type = ""
  · simp [sagaFor, htype, bind, Except.bind] at h
  by_cases hid : event.id.getD "" = ""
  · simp [sagaFor, htype, hid, assertString, bind, Except.bind] at h
  rcases ho : T.sagaOrigin event with error | ⟨isStarterEvent, o⟩
  · simp [sagaFor, htype, hid, ho, assertString, bind, Except.bind] at h
  rcases hm : makeSagaId T.sagaDescriptor o with error | id
  · simp [sagaFor, htype, hid, ho, hm, assertString, bind, Except.bind] at h
  obtain ⟨hf, rfl, rfl⟩ : (if isStarterEvent then SagaFactory.createSaga id
      else .restoreSaga id event) = factory ∧ id = sagaId ∧ o = origin := by
    simpa [sagaFor, htype, hid, ho, hm, assertString, bind, Except.bind, pure, Except.pure] using h
  exact ⟨hid, hm, isStarterEvent, rfl, hf.symm⟩

theorem sagaFor_ok {event : Event I V} {factory : SagaFactory I V} {sagaId origin : String}
    (h : T.sagaFor event = .ok (factory, sagaId, origin)) :
    event.id.getD "" ≠ "" ∧ makeSagaId T.sagaDescriptor origin = .ok sagaId
    ∧ (factory = .createSaga sagaId ∧ event.id = some origin
      ∨ factory = .restoreSaga sagaId event ∧ event.sagaOrigin T.sagaDescriptor = some origin) := by
  obtain ⟨hid, hm, isStarterEvent, ho, hf⟩ := sagaFor_eq_ok h
  refine ⟨hid, hm, ?_⟩
  have hevent := sagaOrigin_ok ho
  cases isStarterEvent with
  | true => exact .inl ⟨hf, hevent⟩
  | false => exact .inr ⟨hf, hevent⟩

/-- An event that has an origin of the saga is handled by the saga of that origin. -/
theorem sagaOrigin_of_some {event : Event I V} {isStarterEvent : Bool} {origin origin' : String}
    (h : T.sagaOrigin event = .ok (isStarterEvent, origin))
    (hso : event.sagaOrigin T.sagaDescriptor = some origin') (hne : origin' ≠ "") :
    origin = origin' := by
  unfold SagaType.sagaOrigin at h
  extract_lets sagaOriginFromEvent starter at h
  have hfrom : sagaOriginFromEvent = some origin' := by
    show (event.sagaOrigin T.sagaDescriptor).filter (truthy ·) = some origin'
    rw [hso]
    simpa [Option.filter, truthy] using hne
  cases hs : starter with
  | true => simp [hs, hfrom] at h
  | false =>
    obtain ⟨-, ho⟩ : isStarterEvent = false ∧ origin = origin' := by
      simpa [hs, hfrom] using h.symm
    exact ho

end SagaType

namespace SagaEventHandler

variable {I V σ D : Type} {T : SagaOptions I V σ D} {s s' : SagaEventHandler I V σ D}

/-- What each action can do. -/
inductive Effect (T : SagaOptions I V σ D) (s : SagaEventHandler I V σ D) :
    Action I V → SagaEventHandler I V σ D → Prop
  | stored {events : List (Event I V)} {ignoreConcurrencyError : Bool} {eventStore : D} :
      T.commitEvents s.eventStore events ignoreConcurrencyError = some eventStore →
      Effect T s (.commitEvents events ignoreConcurrencyError) { s with eventStore }
  | notStored {events : List (Event I V)} {ignoreConcurrencyError : Bool} :
      Effect T s (.commitEvents events ignoreConcurrencyError) s
  | refused {c : ℕ} {event : Event I V} :
      Effect T s (.handle c event) { s with delivered := s.delivered ++ [event] }
  | handle {c : ℕ} {event : Event I V} {factory : SagaFactory I V} {sagaId sagaOrigin : String}
      {sagasCache : MapAssertable String ℕ (SagaFactory I V)} {sagas : List (SagaPromise I V σ)}
      {saga : ℕ} : s.calls c = none → T.sagaFor event = .ok (factory, sagaId, sagaOrigin) →
      s.sagasCache.assert call sagaId factory s.sagas = (sagasCache, sagas, some saga) →
      Effect T s (.handle c event) ({ s with
        delivered := s.delivered ++ [event], sagasCache, sagas
        waiters := Function.update s.waiters saga (s.waiters saga ++ [c]) }.setCall c
          { event, sagaId, sagaOrigin, saga })
  | made {saga : ℕ} {factory : SagaFactory I V} {state : σ} :
      s.sagas[saga]? = some (.pending factory) → T.make s.eventStore factory = .ok state →
      Effect T s (.settled saga true) { s with sagas := s.sagas.set saga (.resolved state) }
  | failed {saga : ℕ} {factory : SagaFactory I V} : s.sagas[saga]? = some (.pending factory) →
      Effect T s (.settled saga false) { s with sagas := s.sagas.set saga .rejected }
  | acquires {saga c : ℕ} {waiters : List ℕ} {state : σ} {call : SagaCall I V} :
      s.waiters saga = c :: waiters → s.sagas[saga]? = some (.resolved state) →
      s.calls c = some call →
      Effect T s (.awaited saga)
        ({ s with waiters := Function.update s.waiters saga waiters }.acquire c call)
  | rejected {saga c : ℕ} {waiters : List ℕ} {call : SagaCall I V} :
      s.waiters saga = c :: waiters → s.sagas[saga]? = some .rejected → s.calls c = some call →
      Effect T s (.awaited saga) ({ s with
        waiters := Function.update s.waiters saga waiters }.setCall c
          { call with await := .rejected })
  | acquired {c : ℕ} {call : SagaCall I V} : s.calls c = some call → call.await = .acquire →
      Effect T s (.acquired c) (s.setCall c { call with await := .handle })
  | acquireRejects {c : ℕ} {call : SagaCall I V} : s.calls c = some call →
      call.await = .acquire →
      Effect T s (.acquireRejects c)
        ((s.leave c call.sagaId).setCall c { call with await := .rejected })
  | handled {c : ℕ} {call : SagaCall I V} {commands : List (Command I V)} {state : σ} :
      s.calls c = some call → call.await = .handle →
      s.sagas[call.saga]? = some (.resolved state) →
      Effect T s (.handled c (some commands)) ({ s with
        sagas := s.sagas.set call.saga (.resolved (T.mutate state call.event)) }.send c call
          commands)
  | handleRejects {c : ℕ} {call : SagaCall I V} : s.calls c = some call → call.await = .handle →
      Effect T s (.handled c none) (s.finish c call.sagaId)
  | sent {c : ℕ} {call : SagaCall I V} {command : Command I V} {commands : List (Command I V)} :
      s.calls c = some call → call.await = .send → call.commands = command :: commands →
      Effect T s (.sent c true) ({ s with
        sent := s.sent ++ [T.attachContext call.event call.sagaOrigin command] }.send c call
          commands)
  | sendRejects {c : ℕ} {call : SagaCall I V} {command : Command I V}
      {commands : List (Command I V)} : s.calls c = some call → call.await = .send →
      call.commands = command :: commands →
      Effect T s (.sent c false) ({ s with
        sent := s.sent ++ [T.attachContext call.event call.sagaOrigin command] }.finish c
          call.sagaId)

theorem of_resume {c : ℕ} {await : SagaAwait}
    {next : SagaCall I V → Option (SagaEventHandler I V σ D)}
    (h : s.resume c await next = some s') :
    ∃ call, s.calls c = some call ∧ call.await = await ∧ next call = some s' := by
  simp only [resume] at h
  split at h
  · rename_i call hc
    split_ifs at h with ha
    exact ⟨call, hc, ha, h⟩
  · cases h

theorem step_cases {a : Action I V} (h : step T s a = some s') : Effect T s a s' := by
  cases a with
  | commitEvents events ignoreConcurrencyError =>
    simp only [step] at h
    split at h <;> obtain rfl := Option.some.inj h
    · rename_i hs
      exact .stored hs
    · exact .notStored
  | handle c event =>
    simp only [step] at h
    split_ifs at h with hc
    split at h
    · obtain rfl := Option.some.inj h
      exact .refused
    · rename_i hs
      split at h
      · rename_i ha
        obtain rfl := Option.some.inj h
        exact .handle (by simpa using hc) hs ha
      · cases h
  | settled saga resolved =>
    simp only [step] at h
    split at h
    · rename_i factory hp
      split_ifs at h with hr
      · subst hr
        split at h
        · rename_i hm
          obtain rfl := Option.some.inj h
          exact .made hp hm
        · cases h
      · obtain rfl : resolved = false := by simpa using hr
        obtain rfl := Option.some.inj h
        exact .failed hp
    · cases h
  | awaited saga =>
    simp only [step] at h
    split at h
    · rename_i hw hp
      split at h
      · rename_i hc
        obtain rfl := Option.some.inj h
        exact .acquires hw hp hc
      · rename_i hc
        obtain rfl := Option.some.inj h
        exact .rejected hw hp hc
      · cases h
    · cases h
  | acquired c =>
    obtain ⟨call, hc, ha, h⟩ := of_resume h
    obtain rfl := Option.some.inj h
    exact .acquired hc ha
  | acquireRejects c =>
    obtain ⟨call, hc, ha, h⟩ := of_resume h
    obtain rfl := Option.some.inj h
    exact .acquireRejects hc ha
  | handled c commands =>
    obtain ⟨call, hc, ha, h⟩ := of_resume h
    cases commands with
    | none =>
      obtain rfl := Option.some.inj h
      exact .handleRejects hc ha
    | some commands =>
      split at h
      · rename_i hcs hs
        obtain rfl := Option.some.inj hcs
        obtain rfl := Option.some.inj h
        exact .handled hc ha hs
      · cases h
      · cases ‹some commands = none›
  | sent c resolved =>
    obtain ⟨call, hc, ha, h⟩ := of_resume h
    dsimp only at h
    split at h
    · cases h
    · rename_i hcs
      cases resolved with
      | true =>
        obtain rfl := Option.some.inj h
        exact .sent hc ha hcs
      | false =>
        obtain rfl := Option.some.inj h
        exact .sendRejects hc ha hcs

@[simp] theorem send_eventStore (s : SagaEventHandler I V σ D) (c : ℕ) (call : SagaCall I V)
    (commands : List (Command I V)) : (s.send c call commands).eventStore = s.eventStore := by
  cases commands <;> rfl

theorem eventStore_step {a : Action I V} (hst : step T s a = some s') :
    s'.eventStore = s.eventStore ∨ ∃ events ignoreConcurrencyError,
      T.commitEvents s.eventStore events ignoreConcurrencyError = some s'.eventStore := by
  cases step_cases hst with
  | stored hs => exact .inr ⟨_, _, hs⟩
  | handled | sent => exact .inl (send_eventStore ..)
  | notStored | refused | handle | made | failed | acquires | rejected | acquired | acquireRejects
  | handleRejects | sendRejects => exact .inl rfl

/-- Each call is of the saga `handle` finds for its event. -/
def Began (T : SagaOptions I V σ D) (s : SagaEventHandler I V σ D) : Prop :=
  ∀ c call, s.calls c = some call →
    ∃ factory, T.sagaFor call.event = .ok (factory, call.sagaId, call.sagaOrigin)

namespace Began

theorem setCall (h : Began T s) {c : ℕ} {call : SagaCall I V}
    (hc : ∃ factory, T.sagaFor call.event = .ok (factory, call.sagaId, call.sagaOrigin)) :
    Began T (s.setCall c call) := by
  intro c' call' hc'
  by_cases hcc : c' = c
  · subst hcc
    obtain rfl : call = call' := by simpa [SagaEventHandler.setCall] using hc'
    exact hc
  · exact h c' call' (by simpa [SagaEventHandler.setCall, hcc] using hc')

theorem finish (h : Began T s) (c : ℕ) (sagaId : String) : Began T (s.finish c sagaId) := by
  intro c' call' hc'
  by_cases hcc : c' = c
  · simp [SagaEventHandler.finish, leave, hcc] at hc'
  · exact h c' call' (by simpa [SagaEventHandler.finish, leave, hcc] using hc')

theorem send (h : Began T s) {c : ℕ} {call : SagaCall I V}
    (hc : ∃ factory, T.sagaFor call.event = .ok (factory, call.sagaId, call.sagaOrigin))
    (commands : List (Command I V)) : Began T (s.send c call commands) := by
  cases commands with
  | nil => exact h.finish c call.sagaId
  | cons command commands => exact h.setCall hc

end Began

theorem began_step {a : Action I V} (h : Began T s) (hst : step T s a = some s') : Began T s' := by
  cases step_cases hst with
  | stored | notStored | refused | made | failed => exact h
  | handle hc hs ha =>
    refine Began.setCall ?_ ⟨_, hs⟩
    exact h
  | @acquires saga c waiters state call hw hp hc =>
    refine Began.setCall ?_ (h c call hc)
    exact h
  | @rejected saga c waiters call hw hp hc =>
    refine Began.setCall ?_ (h c call hc)
    exact h
  | @acquired c call hc ha => exact h.setCall (h c call hc)
  | @acquireRejects c call hc ha =>
    refine Began.setCall ?_ (h c call hc)
    exact h
  | handled hc ha hs =>
    refine Began.send ?_ (h _ _ hc) _
    exact h
  | handleRejects hc ha => exact h.finish _ _
  | sent hc ha hcs =>
    refine Began.send ?_ (h _ _ hc) _
    exact h
  | sendRejects hc ha hcs =>
    refine Began.finish ?_ _ _
    exact h

/-- The call is of the saga. -/
def Uses (s : SagaEventHandler I V σ D) (id : String) (c : ℕ) : Prop :=
  ∃ call, s.calls c = some call ∧ call.sagaId = id

/-- The call is of the saga and has not ended. -/
def InFlight (s : SagaEventHandler I V σ D) (id : String) (c : ℕ) : Prop :=
  ∃ call, s.calls c = some call ∧ call.sagaId = id ∧ call.await ≠ .rejected

/-- The cache counts the calls. -/
def Counts (s : SagaEventHandler I V σ D) : Prop := s.sagasCache.Counted (Uses s)

/-- Asserting a saga has at most one more made. -/
theorem assert_sagas {sagaId : String} {factory : SagaFactory I V}
    {sagasCache : MapAssertable String ℕ (SagaFactory I V)} {sagas : List (SagaPromise I V σ)}
    {saga : Option ℕ}
    (h : s.sagasCache.assert call sagaId factory s.sagas = (sagasCache, sagas, saga)) :
    sagas = s.sagas ∨ ∃ factory, sagas = s.sagas ++ [.pending factory] := by
  rw [MapAssertable.assert_eq] at h
  rcases hf : (s.sagasCache.use sagaId factory).factories sagaId with _ | factory'
  · rw [MapAssertable.get_eq hf] at h
    cases h
    exact .inl rfl
  · rw [MapAssertable.get_of_factory hf] at h
    cases h
    exact .inr ⟨factory', rfl⟩

theorem uses_setCall {c : ℕ} {call : SagaCall I V} (id : String) (c' : ℕ) :
    Uses (s.setCall c call) id c' ↔ if c' = c then call.sagaId = id else Uses s id c' := by
  by_cases h : c' = c <;> simp [Uses, setCall, h]

theorem uses_of_calls {c : ℕ} {call : SagaCall I V} (hc : s.calls c = some call) (id : String) :
    Uses s id c ↔ call.sagaId = id := by
  simp [Uses, hc]

namespace Counts

/-- A call goes on. -/
theorem setCall (h : Counts s) {c : ℕ} {call call' : SagaCall I V} (hc : s.calls c = some call)
    (hid : call'.sagaId = call.sagaId) : Counts (s.setCall c call') := by
  refine MapAssertable.Counted.congr h fun id c' => ?_
  rw [uses_setCall]
  split_ifs with hcc
  · rw [hcc, uses_of_calls hc, hid]
  · exact Iff.rfl

theorem finish (h : Counts s) {c : ℕ} {call : SagaCall I V} (hc : s.calls c = some call) :
    Counts (s.finish c call.sagaId) := by
  refine MapAssertable.Counted.release h ((uses_of_calls hc _).2 rfl) fun id c' => ?_
  by_cases hcc : c' = c
  · subst hcc
    simp [Uses, SagaEventHandler.finish, leave, hc, eq_comm]
  · simp [Uses, SagaEventHandler.finish, leave, hcc]

theorem send (h : Counts s) {c : ℕ} {call : SagaCall I V} (hc : s.calls c = some call)
    (commands : List (Command I V)) : Counts (s.send c call commands) := by
  cases commands with
  | nil => exact h.finish hc
  | cons command commands => exact h.setCall hc rfl

end Counts

theorem counts_step {a : Action I V} (h : Counts s) (hst : step T s a = some s') : Counts s' := by
  cases step_cases hst with
  | stored | notStored | refused | made | failed => exact h
  | @handle c event factory sagaId sagaOrigin sagasCache sagas saga hc hs ha =>
    have hcounted : (s.sagasCache.assert call sagaId factory s.sagas).1.Counted
        fun id c' => c' = c ∧ id = sagaId ∨ Uses s id c' :=
      MapAssertable.Counted.assert h call factory s.sagas (by simp [Uses, hc]) fun _ _ => Iff.rfl
    rw [ha] at hcounted
    refine MapAssertable.Counted.congr hcounted fun id c' => ?_
    by_cases hcc : c' = c <;> simp [Uses, SagaEventHandler.setCall, hcc, hc, eq_comm]
  | acquires _ _ hc => exact Counts.setCall (s := { s with waiters := _, requests := _ }) h hc rfl
  | rejected _ _ hc => exact Counts.setCall (s := { s with waiters := _ }) h hc rfl
  | acquired hc _ => exact h.setCall hc rfl
  | acquireRejects hc _ => exact Counts.setCall (s := { s with requests := _ }) h hc rfl
  | @handled c call commands state hc _ _ =>
    have ht : Counts { s with
      sagas := s.sagas.set call.saga (.resolved (T.mutate state call.event)) } := h
    exact ht.send hc commands
  | handleRejects hc _ => exact h.finish hc
  | @sent c call command commands hc _ _ =>
    have ht : Counts { s with
      sent := s.sent ++ [T.attachContext call.event call.sagaOrigin command] } := h
    exact ht.send hc commands
  | sendRejects hc _ _ => exact Counts.finish (s := { s with sent := _ }) h hc

theorem counts_init (eventStore : D) : Counts ({ eventStore } : SagaEventHandler I V σ D) where
  usage id := ⟨[], List.nodup_nil, fun c => by simp [Uses], rfl⟩
  has_iff id := by simp [MapAssertable.has]

theorem reach_counts {eventStore : D} (h : (machine T eventStore).Reach s) : Counts s := by
  refine Machine.ReachIf.invariant (P := Counts) (fun t h0 => ?_)
    (fun _ _ _ hs _ hst => counts_step hs hst) h
  obtain rfl : t = { eventStore } := h0
  exact counts_init eventStore

/-- No saga fails to be made or restored, and `acquire` does not reject. -/
def Settles (_ : SagaEventHandler I V σ D) : Action I V → Prop
  | .settled _ resolved => resolved
  | .acquireRejects _ => False
  | _ => True

/-- No call has ended but by its `finally` block, and none will. -/
structure Sound (s : SagaEventHandler I V σ D) : Prop where
  sagas : ∀ saga : ℕ, s.sagas[saga]? ≠ some .rejected
  calls : ∀ c call, s.calls c = some call → call.await ≠ .rejected

namespace Sound

theorem setCall (h : Sound s) {c : ℕ} {call : SagaCall I V} (ha : call.await ≠ .rejected) :
    Sound (s.setCall c call) where
  sagas := h.sagas
  calls c' call' hc' := by
    by_cases hcc : c' = c
    · simp only [SagaEventHandler.setCall, hcc, Function.update_self, Option.some.injEq] at hc'
      exact hc' ▸ ha
    · exact h.calls c' call' (by simpa [SagaEventHandler.setCall, hcc] using hc')

theorem set (h : Sound s) {saga : ℕ} {promise : SagaPromise I V σ} (hp : promise ≠ .rejected) :
    Sound { s with sagas := s.sagas.set saga promise } where
  sagas saga' := by
    simp only [List.getElem?_set]
    split_ifs
    · simpa using hp
    · simp
    · exact h.sagas saga'
  calls := h.calls

theorem assert (h : Sound s) {sagaId : String} {factory : SagaFactory I V}
    {sagasCache : MapAssertable String ℕ (SagaFactory I V)} {sagas : List (SagaPromise I V σ)}
    {saga : Option ℕ}
    (ha : s.sagasCache.assert call sagaId factory s.sagas = (sagasCache, sagas, saga)) :
    Sound { s with sagasCache, sagas } where
  sagas saga' := by
    obtain rfl | ⟨factory', rfl⟩ := assert_sagas ha
    · exact h.sagas saga'
    · intro hp
      rcases List.mem_append.1 (List.mem_of_getElem? hp) with hm | hm
      · obtain ⟨i, hi⟩ := List.getElem?_of_mem hm
        exact h.sagas i hi
      · simp at hm
  calls := h.calls

theorem finish (h : Sound s) (c : ℕ) (sagaId : String) : Sound (s.finish c sagaId) where
  sagas := h.sagas
  calls c' call' hc' := by
    by_cases hcc : c' = c
    · simp [SagaEventHandler.finish, leave, hcc] at hc'
    · exact h.calls c' call' (by simpa [SagaEventHandler.finish, leave, hcc] using hc')

theorem send (h : Sound s) (c : ℕ) (call : SagaCall I V) (commands : List (Command I V)) :
    Sound (s.send c call commands) := by
  cases commands with
  | nil => exact h.finish c call.sagaId
  | cons command commands => exact h.setCall (by simp)

end Sound

theorem sound_step {a : Action I V} (h : Sound s) (hC : Settles s a) (hst : step T s a = some s') :
    Sound s' := by
  cases step_cases hst with
  | stored | notStored | refused => exact ⟨h.sagas, h.calls⟩
  | @handle c event factory sagaId sagaOrigin sagasCache sagas saga hc hs ha =>
    have hs' := h.assert ha
    refine Sound.setCall ?_ ?_
    · exact ⟨hs'.sagas, hs'.calls⟩
    · simp
  | made hp hm => exact h.set (by simp)
  | failed hp => cases hC
  | acquires hw hp hc =>
    refine Sound.setCall ?_ ?_
    · exact ⟨h.sagas, h.calls⟩
    · simp
  | rejected hw hp hc => exact absurd hp (h.sagas _)
  | acquired hc ha => exact h.setCall (by simp)
  | acquireRejects hc ha => exact absurd hC not_false
  | handled hc ha hs => exact (h.set (by simp)).send _ _ _
  | handleRejects hc ha => exact h.finish _ _
  | sent hc ha hcs =>
    refine Sound.send ?_ _ _ _
    exact ⟨h.sagas, h.calls⟩
  | sendRejects hc ha hcs =>
    refine Sound.finish ?_ _ _
    exact ⟨h.sagas, h.calls⟩

/-- While every saga is made and restored, the cache has nothing for a saga without a call in
flight. -/
theorem sagas_released {eventStore : D} (h : (machine T eventStore).ReachIf Settles s) (id : String)
    (hid : ∀ c, ¬ InFlight s id c) :
    s.sagasCache.entries id = none ∧ s.sagasCache.factories id = none := by
  have hs : Sound s := by
    refine h.invariant (fun t h0 => ?_) fun _ _ _ hs hC hst => sound_step hs hC hst
    obtain rfl : t = { eventStore } := h0
    exact ⟨by simp, by simp⟩
  refine (reach_counts h.reach).empty_of_unused fun c => ?_
  rintro ⟨call, hc, hcid⟩
  exact hid c ⟨call, hc, hcid, hs.calls c call hc⟩

instance (s : SagaEventHandler I V σ D) : ∀ a, Decidable (Settles s a)
  | .settled _ resolved => inferInstanceAs (Decidable (resolved = true))
  | .acquireRejects _ => isFalse not_false
  | .commitEvents .. | .handle .. | .awaited _ | .acquired _ | .handled .. | .sent .. =>
    isTrue trivial

/-- A saga that adds up what is paid, over a store that is a list. -/
def payments : SagaOptions String ℕ ℕ (List (Event String ℕ)) where
  sagaDescriptor := "Payments"
  handles := ["ordered", "paid"]
  sagaFactory _ := 0
  mutate total event := total + event.payload
  commitEvents log events _ := some (log ++ events)
  getSagaEvents log _ event := .ok (log.takeWhile (· ≠ event))

/-- Two calls of a saga overlap; one fails to send its command and one to handle its event. -/
def overlapping : List (Action String ℕ) := [
  .handle 0 { id := some "1", type := "ordered", payload := 0 },
  .handle 1
    { id := some "2", type := "paid", payload := 5, sagaOrigins := some [("Payments", "1")] },
  .settled 0 true, .awaited 0, .awaited 0, .acquired 0,
  .handled 0 (some [{ type := "pay", payload := 5 }]), .sent 0 false, .acquired 1,
  .handled 1 none]

theorem sagas_released_overlapping :
    ∃ s, (machine payments []).run { eventStore := [] } overlapping = some s
      ∧ s.sagasCache.entries "Payments:1" = none
      ∧ s.sagasCache.factories "Payments:1" = none := by
  obtain ⟨s, hs, h0, h1, h2⟩ : ∃ s,
      (machine payments []).run { eventStore := [] } overlapping = some s
      ∧ s.calls 0 = none ∧ s.calls 1 = none ∧ ∀ c, s.calls (c + 2) = none :=
    ⟨_, rfl, rfl, rfl, fun _ => rfl⟩
  have h := (Machine.ReachIf.init (C := Settles) rfl).run (by decide) hs
  refine ⟨s, hs, sagas_released h "Payments:1" fun c => ?_⟩
  rintro ⟨call, hc, -⟩
  match c with
  | 0 => simp [h0] at hc
  | 1 => simp [h1] at hc
  | c + 2 => simp [h2] at hc

/-- The promise of a saga whose constructor threw stays. -/
theorem sagas_released_fails : ¬ ∀ s, (machine payments []).Reach s →
    ∀ id, (∀ c, ¬ InFlight s id c) →
      s.sagasCache.entries id = none ∧ s.sagasCache.factories id = none := by
  intro hall
  obtain ⟨s, hs, he, h0, h1⟩ : ∃ s, (machine payments []).run { eventStore := [] } [
      .handle 0 { id := some "1", type := "ordered", payload := 0 }, .settled 0 false,
      .awaited 0] = some s ∧ s.sagasCache.entries "Payments:1" = some 0
      ∧ (s.calls 0).map (·.await) = some .rejected ∧ ∀ c, s.calls (c + 1) = none :=
    ⟨_, rfl, rfl, rfl, fun _ => rfl⟩
  have hid : ∀ c, ¬ InFlight s "Payments:1" c := by
    rintro c ⟨call, hc, -, ha⟩
    match c with
    | 0 => simp_all
    | c + 1 => simp [h1] at hc
  have hnone := hall s (Machine.reach_of_run rfl hs) "Payments:1" hid
  simp [he] at hnone

end SagaEventHandler

end NodeCqrs
