import NodeCqrs.InMemory.MessageBus
import NodeCqrs.Proofs.Publishing

/-!
# What `drain` waits for

`drain` waits for the promises of the calls to `publish`, and these, over an `InMemoryMessageBus`,
are `Promise.all` of the handlers' (`Awaits`). Such a promise that is fulfilled has its handlers
fulfilled, but one that is rejected only has one of them rejected. So `drain` waits for all handlers
if none rejects before the others of its event are settled (`drains_settled`).
-/

namespace NodeCqrs

open Promises (Grows WellFormed)

variable {ps ps' ps'' : Promises} {q : ℕ} {handlers handlers' : List ℕ}

namespace InMemoryMessageBus

/-- The promises are those of handlers called between. -/
structure Calls (ps ps' : Promises) (handlers : List ℕ) : Prop where
  grows : Grows ps ps'
  wellFormed : WellFormed ps'
  status : ps'.status = ps.status
  handlers : ∀ h ∈ handlers, ps.count ≤ h ∧ h < ps'.count ∧ ps'.origin h = .outer

namespace Calls

theorem create (h : Calls ps ps' handlers) {origin : PromiseOrigin}
    (ho : ∀ j ∈ origin.sources, j < ps'.count) : Calls ps (ps'.create origin) handlers where
  grows := h.grows.trans (.create ..)
  wellFormed := h.wellFormed.create ho
  status := h.status
  handlers i hi := by
    obtain ⟨hle, hlt, horigin⟩ := h.handlers i hi
    exact ⟨hle, Nat.lt_succ_of_lt hlt, by rwa [Promises.create_origin hlt]⟩

theorem append (h : Calls ps ps' handlers) (h' : Calls ps' ps'' handlers') :
    Calls ps ps'' (handlers ++ handlers') where
  grows := h.grows.trans h'.grows
  wellFormed := h'.wellFormed
  status := h'.status.trans h.status
  handlers i hi := by
    rcases List.mem_append.1 hi with hi | hi
    · obtain ⟨hle, hlt, horigin⟩ := h.handlers i hi
      exact ⟨hle, Nat.lt_of_lt_of_le hlt h'.grows.count, by rwa [h'.grows.origin i hlt]⟩
    · obtain ⟨hle, hlt, horigin⟩ := h'.handlers i hi
      exact ⟨Nat.le_trans h.grows.count hle, hlt, horigin⟩

end Calls

theorem calls_callHandlers (hw : WellFormed ps) : ∀ n,
    Calls ps (callHandlers ps n) (List.range' ps.count n)
      ∧ (callHandlers ps n).count = ps.count + n
  | 0 => ⟨⟨.refl ps, hw, rfl, by simp⟩, rfl⟩
  | n + 1 => by
    obtain ⟨h, hcount⟩ := calls_callHandlers hw n
    have hcreate : Calls (callHandlers ps n) ((callHandlers ps n).create .outer)
        [(callHandlers ps n).count] :=
      ⟨.create .., h.wellFormed.create (by simp [PromiseOrigin.sources]), rfl, by simp⟩
    rw [List.range'_1_concat, ← hcount]
    exact ⟨h.append hcreate, by rw [callHandlers, Promises.create_count, hcount]; rfl⟩

theorem calls_publishQueue (hw : WellFormed ps) (handlers : MessageHandlers)
    (messageType : String) :
    Calls ps (publishQueue ps handlers messageType).promises
        (publishQueue ps handlers messageType).handlers
      ∧ (publishQueue ps handlers messageType).result
        < (publishQueue ps handlers messageType).promises.count
      ∧ (publishQueue ps handlers messageType).promises.origin
          (publishQueue ps handlers messageType).result
        = .all (publishQueue ps handlers messageType).handlers := by
  obtain ⟨h, hcount⟩ := calls_callHandlers hw (handlerCount handlers messageType)
  refine ⟨h.create fun j hj => ?_, Nat.lt_succ_self _, Promises.create_origin_self ..⟩
  exact (h.handlers j hj).2.1

/-- The queues' promises and those of their handlers. -/
theorem calls_publishQueues (messageType : String) : ∀ (queues : List (String × MessageHandlers))
    {ps : Promises}, WellFormed ps → ∃ (ps' : Promises) (results : List (ℕ × List ℕ)),
      publishQueues ps messageType queues
        = (ps', results.map Prod.fst, results.flatMap Prod.snd)
      ∧ Calls ps ps' (results.flatMap Prod.snd)
      ∧ ∀ x ∈ results, x.1 < ps'.count ∧ ps'.origin x.1 = .all x.2
  | [], ps, hw => ⟨ps, [], rfl, ⟨.refl ps, hw, rfl, by simp⟩, by simp⟩
  | (queueName, handlers) :: queues, ps, hw => by
    obtain ⟨h, hlt, ho⟩ := calls_publishQueue hw handlers messageType
    obtain ⟨ps', results, heq, hrest, hall⟩ :=
      calls_publishQueues messageType queues h.wellFormed
    set published := publishQueue ps handlers messageType with hpublished
    refine ⟨ps', (published.result, published.handlers) :: results, ?_, h.append hrest, ?_⟩
    · simp only [publishQueues, ← hpublished, heq, List.map_cons, List.flatMap_cons]
    · rintro x hx
      rcases List.mem_cons.1 hx with rfl | hx
      · exact ⟨Nat.lt_of_lt_of_le hlt hrest.grows.count, (hrest.grows.origin _ hlt).trans ho⟩
      · exact hall x hx

/-- The promise `publish` returns, and those of the handlers it called: `Promise.all` of the
bus's own handlers and of the queues, each of which is that of its handlers. -/
def Awaits (ps : Promises) (q : ℕ) (handlers : List ℕ) : Prop :=
  handlers = [] ∨ ∃ (direct : List ℕ) (queues : List (ℕ × List ℕ)),
    ps.origin q = .all (direct ++ queues.map Prod.fst)
      ∧ handlers = direct ++ queues.flatMap Prod.snd
      ∧ ∀ x ∈ queues, x.1 < ps.count ∧ ps.origin x.1 = .all x.2

theorem Awaits.mono (h : Awaits ps q handlers) (hq : q < ps.count) (hg : Grows ps ps') :
    Awaits ps' q handlers := by
  rcases h with h | ⟨direct, queues, ho, hh, hall⟩
  · exact .inl h
  · refine .inr ⟨direct, queues, (hg.origin q hq).trans ho, hh, fun x hx => ?_⟩
    obtain ⟨hlt, hx⟩ := hall x hx
    exact ⟨Nat.lt_of_lt_of_le hlt hg.count, (hg.origin x.1 hlt).trans hx⟩

/-- Settled means that all handlers are, or that one of them rejected. -/
theorem Awaits.settled (h : Awaits ps q handlers) (hw : WellFormed ps) (hq : q < ps.count)
    (hs : ps.status q ≠ .pending) :
    (∃ i ∈ handlers, ps.status i = .rejected) ∨ ∀ i ∈ handlers, ps.status i ≠ .pending := by
  rcases h with rfl | ⟨direct, queues, ho, rfl, hall⟩
  · exact .inr (by simp)
  cases hst : ps.status q with
  | pending => exact absurd hst hs
  | rejected =>
    obtain ⟨j, hj, hr⟩ := hw.of_all_rejected hq ho hst
    rcases List.mem_append.1 hj with hj | hj
    · exact .inl ⟨j, List.mem_append_left _ hj, hr⟩
    · obtain ⟨x, hx, rfl⟩ := List.mem_map.1 hj
      obtain ⟨hlt, hx'⟩ := hall x hx
      obtain ⟨i, hi, hr⟩ := hw.of_all_rejected hlt hx' hr
      exact .inl ⟨i, List.mem_append_right _ (List.mem_flatMap.2 ⟨x, hx, hi⟩), hr⟩
  | fulfilled =>
    have hf := hw.of_all_fulfilled hq ho hst
    refine .inr fun i hi => ?_
    rcases List.mem_append.1 hi with hi | hi
    · simp [hf i (List.mem_append_left _ hi)]
    · obtain ⟨x, hx, hi⟩ := List.mem_flatMap.1 hi
      obtain ⟨hlt, hx'⟩ := hall x hx
      have hxf := hf x.1 (List.mem_append_right _ (List.mem_map_of_mem hx))
      simp [hw.of_all_fulfilled hlt hx' hxf i hi]

/-- What a call to `publish` leaves. -/
structure Publishes (ps : Promises) (published : Published) : Prop where
  grows : Grows ps published.promises
  wellFormed : WellFormed published.promises
  status : ∀ i < ps.count, published.promises.status i = ps.status i
  result : published.result < published.promises.count
  awaits : Awaits published.promises published.result published.handlers
  handlers : ∀ h ∈ published.handlers, h < published.promises.count
    ∧ published.promises.origin h = .outer ∧ published.promises.status h = .pending

theorem publishes_publish {I V : Type} (hw : WellFormed ps) (bus : InMemoryMessageBus)
    (event : Event I V) : Publishes ps (bus.publish ps event) := by
  unfold publish
  split_ifs with he
  · obtain ⟨hdirect, -⟩ := calls_callHandlers hw (handlerCount bus.handlers event.type)
    obtain ⟨ps', results, heq, hqueues, hall⟩ :=
      calls_publishQueues event.type bus.queues hdirect.wellFormed
    have hsources : ∀ j ∈ (PromiseOrigin.all (List.range' ps.count
        (handlerCount bus.handlers event.type) ++ results.map Prod.fst)).sources,
        j < ps'.count := by
      intro j hj
      rcases List.mem_append.1 hj with hj | hj
      · exact Nat.lt_of_lt_of_le (hdirect.handlers j hj).2.1 hqueues.grows.count
      · obtain ⟨x, hx, rfl⟩ := List.mem_map.1 hj
        exact (hall x hx).1
    have hcreate := (hdirect.append hqueues).create hsources
    simp only [heq]
    refine ⟨hcreate.grows, hcreate.wellFormed, fun i _ => congrFun hcreate.status i,
      Nat.lt_succ_self _, .inr ⟨_, results, Promises.create_origin_self .., rfl, fun x hx => ?_⟩,
      fun h hh => ?_⟩
    · obtain ⟨hlt, ho⟩ := hall x hx
      exact ⟨Nat.lt_succ_of_lt hlt, (Promises.create_origin hlt).trans ho⟩
    · obtain ⟨hle, hlt, ho⟩ := hcreate.handlers h hh
      exact ⟨hlt, ho, (congrFun hcreate.status h).trans (hw.pending h hle)⟩
  · exact ⟨(Grows.create ..).trans (.of_update _ (hw.pending _ (Nat.le_refl _))), hw.reject,
      fun i hi => Function.update_of_ne (Nat.ne_of_lt hi) .., Nat.lt_succ_self _, .inl rfl,
      by simp⟩

end InMemoryMessageBus

namespace Publishing

open InMemoryMessageBus (Awaits)

variable {B C I V M : Type} {s s' : State B}

/-- When a promise `drain` returned is fulfilled, the handlers called for the dispatches resolved
before it have settled. -/
def Drained (s : State B) : Prop :=
  ∀ d ∈ s.drains, s.promises.status d.1 = .fulfilled → ∀ e ∈ s.publications,
    e.dispatch < d.2 → ∀ h ∈ e.handlers, s.promises.status h ≠ .pending

/-- No handler rejects while another handler of the same event is pending. -/
def RejectsLast (s : State B) : Action C I V M → Prop
  | .settle i .rejected => ∀ e ∈ s.publications, i ∈ e.handlers → ∀ h ∈ e.handlers, h ≠ i →
    s.promises.status h ≠ .pending
  | _ => True

/-- What is kept of a published event: its promise in `#pending` is there until it is settled, and
if a handler has rejected all are settled. -/
structure Tracked (ps : Promises) (pending : ℕ → List ℕ) (pipelines : ℕ) (e : Publication) :
    Prop where
  pipeline : e.pipeline < pipelines
  result : e.result < ps.count
  awaits : Awaits ps e.result e.handlers
  caught : e.caught < ps.count ∧ ps.origin e.caught = .onRejected e.result true
  handlers : ∀ h ∈ e.handlers, h < ps.count ∧ ps.origin h = .outer
  last : (∃ h ∈ e.handlers, ps.status h = .rejected) → ∀ h ∈ e.handlers, ps.status h ≠ .pending
  pending : e.caught ∈ pending e.pipeline ∨ ps.status e.caught ≠ .pending

/-- What is kept of a call to `drain`: of the events before it, each promise is settled or waited
for. -/
structure Draining (ps : Promises) (publications : List Publication) (d : ℕ × ℕ) : Prop where
  promise : d.1 < ps.count
  waits : ∃ l : List ℕ, ps.origin d.1 = .all l ∧ ∀ e ∈ publications, e.dispatch < d.2 →
    ps.status e.caught ≠ .pending
      ∨ ∃ j ∈ l, j < ps.count ∧ ∃ l', ps.origin j = .allSettled l' ∧ e.caught ∈ l'

structure Inv (pipelines : ℕ) (s : State B) : Prop where
  wellFormed : WellFormed s.promises
  pending : ∀ k, ∀ p ∈ s.pending k, p < s.promises.count
  publications : ∀ e ∈ s.publications, Tracked s.promises s.pending pipelines e
  drains : ∀ d ∈ s.drains, d.2 ≤ s.dispatched ∧ Draining s.promises s.publications d

theorem Tracked.settled {pending : ℕ → List ℕ} {pipelines : ℕ} {e : Publication}
    (h : Tracked ps pending pipelines e) (hw : WellFormed ps)
    (hs : ps.status e.caught ≠ .pending) : ∀ h ∈ e.handlers, ps.status h ≠ .pending := by
  have hresult := hw.of_onRejected h.caught.1 h.caught.2 hs
  rcases h.awaits.settled hw h.result hresult with hr | hall
  · exact h.last hr
  · exact hall

theorem Inv.drained {pipelines : ℕ} (h : Inv pipelines s) : Drained s := by
  intro d hd hf e he hlt
  obtain ⟨-, hpromise, l, ho, hwaits⟩ := h.drains d hd
  refine (h.publications e he).settled h.wellFormed ?_
  rcases hwaits e he hlt with hs | ⟨j, hj, hjlt, l', hjo, hmem⟩
  · exact hs
  · have hjf := h.wellFormed.of_all_fulfilled hpromise ho hf j hj
    exact h.wellFormed.of_allSettled hjlt hjo (by simp [hjf]) _ hmem

section Frames

variable {pending pending' : ℕ → List ℕ} {publications publications' : List Publication}
  {pipelines : ℕ} {e : Publication} {d : ℕ × ℕ}

theorem Tracked.mono (h : Tracked ps pending pipelines e) (hg : Grows ps ps')
    (hlast : (∃ h ∈ e.handlers, ps'.status h = .rejected) →
      ∀ h ∈ e.handlers, ps'.status h ≠ .pending)
    (hp : e.caught ∈ pending e.pipeline →
      e.caught ∈ pending' e.pipeline ∨ ps'.status e.caught ≠ .pending) :
    Tracked ps' pending' pipelines e where
  pipeline := h.pipeline
  result := Nat.lt_of_lt_of_le h.result hg.count
  awaits := h.awaits.mono h.result hg
  caught := ⟨Nat.lt_of_lt_of_le h.caught.1 hg.count,
    (hg.origin _ h.caught.1).trans h.caught.2⟩
  handlers i hi := by
    obtain ⟨hlt, ho⟩ := h.handlers i hi
    exact ⟨Nat.lt_of_lt_of_le hlt hg.count, (hg.origin i hlt).trans ho⟩
  last := hlast
  pending := h.pending.elim hp fun hs => .inr (hg.settled hs)

/-- Promises are made, and none of those that were there settles. -/
theorem Tracked.frame (h : Tracked ps pending pipelines e) (hg : Grows ps ps')
    (hs : ∀ i < ps.count, ps'.status i = ps.status i)
    (hp : e.caught ∈ pending e.pipeline → e.caught ∈ pending' e.pipeline) :
    Tracked ps' pending' pipelines e := by
  have hkept : ∀ i ∈ e.handlers, ps'.status i = ps.status i :=
    fun i hi => hs i (h.handlers i hi).1
  refine h.mono hg ?_ fun hmem => .inl (hp hmem)
  rintro ⟨i, hi, hr⟩ j hj
  rw [hkept j hj]
  exact h.last ⟨i, hi, (hkept i hi).symm.trans hr⟩ j hj

theorem Draining.mono (h : Draining ps publications d) (hg : Grows ps ps')
    (hp : ∀ e ∈ publications', e.dispatch < d.2 → e ∈ publications) :
    Draining ps' publications' d where
  promise := Nat.lt_of_lt_of_le h.promise hg.count
  waits := by
    obtain ⟨l, ho, hwaits⟩ := h.waits
    refine ⟨l, (hg.origin _ h.promise).trans ho, fun e he hlt => ?_⟩
    rcases hwaits e (hp e he hlt) hlt with hs | ⟨j, hj, hjlt, l', hjo, hmem⟩
    · exact .inl (hg.settled hs)
    · exact .inr ⟨j, hj, Nat.lt_of_lt_of_le hjlt hg.count, l', (hg.origin j hjlt).trans hjo, hmem⟩

end Frames

namespace Inv

variable {pipelines : ℕ} {s s' : State InMemoryMessageBus}

/-- A call to `publish` and what is attached to its promise. -/
theorem published (h : Inv pipelines s) {k : ℕ} (hk : k < pipelines) {published : Published}
    (hpub : InMemoryMessageBus.Publishes s.promises published) :
    Inv pipelines { s with
      promises := (published.promises.create (.onRejected published.result true)).create
        (.onFinally published.promises.count)
      pending := Function.update s.pending k (s.pending k ++ [published.promises.count])
      publications := s.publications ++ [{
        pipeline := k
        dispatch := s.dispatched
        handlers := published.handlers
        result := published.result
        caught := published.promises.count }] } := by
  set ps₁ := published.promises
  set ps₂ := ps₁.create (.onRejected published.result true)
  set ps₃ := ps₂.create (.onFinally ps₁.count)
  have hg₃ : Grows ps₁ ps₃ := (Grows.create ..).trans (.create ..)
  have hg : Grows s.promises ps₃ := hpub.grows.trans hg₃
  have hstatus : ∀ i < s.promises.count, ps₃.status i = s.promises.status i := hpub.status
  have hcaught : ps₃.origin ps₁.count = .onRejected published.result true := by
    rw [Promises.create_origin (Nat.lt_succ_self _)]
    exact Promises.create_origin_self ..
  have hpending : ∀ k' p, p ∈ s.pending k' →
      p ∈ Function.update s.pending k (s.pending k ++ [ps₁.count]) k' := by
    intro k' p hp
    by_cases hk' : k' = k
    · subst hk'
      simp [hp]
    · rwa [Function.update_of_ne hk']
  refine ⟨?_, fun k' p hp => ?_, fun e he => ?_, fun d hd => ?_⟩
  · refine (hpub.wellFormed.create fun j hj => ?_).create fun j hj => ?_
    · obtain rfl := List.mem_singleton.1 hj
      exact hpub.result
    · obtain rfl := List.mem_singleton.1 hj
      exact Nat.lt_succ_self _
  · have hcases : p ∈ s.pending k' ∨ p = ps₁.count := by
      by_cases hk' : k' = k
      · subst hk'
        simpa using hp
      · exact .inl (by simpa [Function.update_of_ne hk'] using hp)
    rcases hcases with hp | rfl
    · exact Nat.lt_of_lt_of_le (h.pending k' p hp) hg.count
    · exact Nat.lt_succ_of_lt (Nat.lt_succ_self _)
  · rcases List.mem_append.1 he with he | he
    · exact (h.publications e he).frame hg hstatus (hpending _ _)
    · obtain rfl := List.mem_singleton.1 he
      refine ⟨hk, Nat.lt_of_lt_of_le hpub.result hg₃.count, hpub.awaits.mono hpub.result hg₃,
        ⟨Nat.lt_succ_of_lt (Nat.lt_succ_self _), hcaught⟩, fun i hi => ?_, ?_, .inl ?_⟩
      · obtain ⟨hlt, ho, -⟩ := hpub.handlers i hi
        exact ⟨Nat.lt_of_lt_of_le hlt hg₃.count, (hg₃.origin i hlt).trans ho⟩
      · rintro ⟨i, hi, hr⟩
        have hnew : ps₁.status i = .pending := (hpub.handlers i hi).2.2
        exact absurd (hnew.symm.trans hr) (by simp)
      · simp [ps₁]
  · obtain ⟨hle, hdrain⟩ := h.drains d hd
    refine ⟨hle, hdrain.mono hg fun e he hlt => ?_⟩
    rcases List.mem_append.1 he with he | he
    · exact he
    · obtain rfl := List.mem_singleton.1 he
      exact absurd hlt (Nat.not_lt_of_le hle)

theorem foldl {k : ℕ} (hk : k < pipelines) : ∀ (events : List (Event I V))
    {s : State InMemoryMessageBus}, Inv pipelines s → Inv pipelines
      (events.foldl (publish (InMemoryMessageBus.eventBus I V) true k) s)
  | [], _, h => h
  | event :: events, s, h => foldl hk events (h.published hk
    (InMemoryMessageBus.publishes_publish h.wellFormed s.bus event))

/-- What is called outside answers; a handler that rejects is the last of its event's. -/
theorem settle (h : Inv pipelines s) {i : ℕ} {status : PromiseStatus}
    (hs : s.promises.settle i status = some ps)
    (hlast : status = .rejected → ∀ e ∈ s.publications, i ∈ e.handlers → ∀ j ∈ e.handlers,
      j ≠ i → s.promises.status j ≠ .pending) :
    Inv pipelines { s with promises := ps } := by
  have hg := Grows.settle hs
  obtain ⟨⟨-, -, -, hne⟩, rfl⟩ := Promises.settle_eq hs
  refine ⟨h.wellFormed.settle hs, h.pending, fun e he => ?_, fun d hd => ?_⟩
  · refine (h.publications e he).mono hg ?_ .inl
    rintro ⟨j, hj, hr⟩ k hk
    by_cases hki : k = i
    · simpa [hki] using hne
    · simp only [Function.update_of_ne hki]
      by_cases hji : j = i
      · subst hji
        exact hlast (by simpa using hr) e he hj k hk hki
      · simp only [Function.update_of_ne hji] at hr
        exact (h.publications e he).last ⟨j, hj, hr⟩ k hk
  · obtain ⟨hle, hdrain⟩ := h.drains d hd
    exact ⟨hle, hdrain.mono hg fun e he _ => he⟩

/-- A promise follows those it is made of; no handler's is made of others. -/
theorem react (h : Inv pipelines s) {i : ℕ} {threw : Bool}
    (hs : s.promises.react i threw = some ps) :
    Inv pipelines { s with
      promises := ps
      pending := fun k => delete (s.promises.origin i) (s.pending k) } := by
  have hg := Grows.react hs
  obtain ⟨⟨-, -, hne⟩, rfl⟩ := Promises.react_eq hs
  refine ⟨h.wellFormed.react hs, fun k p hp => h.pending k p (delete_subset _ _ hp),
    fun e he => ?_, fun d hd => ?_⟩
  · have htracked := h.publications e he
    have hother : ∀ j ∈ e.handlers, j ≠ i := by
      rintro j hj rfl
      simp [(htracked.handlers j hj).2, Promises.outcome] at hne
    refine htracked.mono hg ?_ fun hp => ?_
    · rintro ⟨j, hj, hr⟩ k hk
      simp only [Function.update_of_ne (hother j hj)] at hr
      simp only [Function.update_of_ne (hother k hk)]
      exact htracked.last ⟨j, hj, hr⟩ k hk
    · -- only a promise that is settled is deleted
      by_cases hdel : s.promises.origin i = .onFinally e.caught
      · rw [hdel] at hne
        exact .inr (hg.settled hne)
      · refine .inl ?_
        cases ho : s.promises.origin i with
        | onFinally p =>
          have hep : e.caught ≠ p := by
            rintro rfl
            exact hdel ho
          exact (List.mem_erase_of_ne hep).2 hp
        | outer | all | allSettled | onRejected => exact hp
  · obtain ⟨hle, hdrain⟩ := h.drains d hd
    exact ⟨hle, hdrain.mono hg fun e he _ => he⟩

theorem drain (h : Inv pipelines s) :
    Inv pipelines { s with
      promises := (drainFrom s.pending s.promises pipelines).create
        (.all (List.range' s.promises.count pipelines))
      drains := s.drains ++
        [((drainFrom s.pending s.promises pipelines).count, s.dispatched)] } := by
  have hw := wellFormed_drainFrom h.wellFormed h.pending pipelines
  have hg := grows_drainFrom s.pending s.promises pipelines
  have hg' : Grows s.promises ((drainFrom s.pending s.promises pipelines).create
      (.all (List.range' s.promises.count pipelines))) := hg.trans (.create ..)
  have hcount := drainFrom_count s.pending s.promises pipelines
  refine ⟨hw.create fun j hj => ?_, fun k p hp => Nat.lt_of_lt_of_le (h.pending k p hp) hg'.count,
    fun e he => ?_, fun d hd => ?_⟩
  · rw [hcount]
    exact (List.mem_range'_1.1 hj).2
  · refine (h.publications e he).frame hg' (fun i _ => ?_) id
    rw [Promises.create_status, drainFrom_status]
  · rcases List.mem_append.1 hd with hd | hd
    · obtain ⟨hle, hdrain⟩ := h.drains d hd
      exact ⟨hle, hdrain.mono hg' fun e he _ => he⟩
    · obtain rfl := List.mem_singleton.1 hd
      refine ⟨Nat.le_refl _, Nat.lt_succ_self _, _, Promises.create_origin_self ..,
        fun e he _ => ?_⟩
      have htracked := h.publications e he
      rcases htracked.pending with hmem | hs
      · have hlt : s.promises.count + e.pipeline < s.promises.count + pipelines :=
          Nat.add_lt_add_left htracked.pipeline _
        refine .inr ⟨s.promises.count + e.pipeline,
          List.mem_range'_1.2 ⟨Nat.le_add_right _ _, hlt⟩, ?_, s.pending e.pipeline, ?_, hmem⟩
        · rw [Promises.create_count, hcount]
          exact Nat.lt_succ_of_lt hlt
        · rw [Promises.create_origin (by rw [hcount]; exact hlt),
            drainFrom_origin htracked.pipeline]
      · exact .inl (hg'.settled hs)

/-- Each step keeps the invariant, if a handler rejects only as the last of its event's. -/
theorem step [Truthy V] {a : Action InMemoryMessageBus.Call I V M} (h : Inv pipelines s)
    (hC : RejectsLast s a)
    (hst : step (InMemoryMessageBus.eventBus I V) pipelines true s a = some s') :
    Inv pipelines s' := by
  cases a with
  | call c =>
    obtain ⟨bus, -, rfl⟩ := Option.map_eq_some_iff.1 hst
    exact ⟨h.wellFormed, h.pending, h.publications, h.drains⟩
  | consume k data =>
    simp only [Publishing.step] at hst
    split_ifs at hst with hk
    obtain rfl := Option.some.inj hst
    have hall := h.foldl hk ((DispatchPipeline.publishes data).map Prod.fst)
    refine ⟨hall.wellFormed, hall.pending, hall.publications, fun d hd => ?_⟩
    obtain ⟨hle, hdrain⟩ := hall.drains d hd
    exact ⟨Nat.le_succ_of_le hle, hdrain⟩
  | settle i status =>
    obtain ⟨ps, hs, rfl⟩ := Option.map_eq_some_iff.1 hst
    refine h.settle hs fun hr => ?_
    subst hr
    exact hC
  | react i threw =>
    obtain ⟨ps, hs, rfl⟩ := Option.map_eq_some_iff.1 hst
    exact h.react hs
  | drain =>
    obtain rfl := Option.some.inj hst
    exact h.drain

end Inv

/-- In every run in which no handler rejects while another handler of its event is pending: when a
promise that `drain` returned is fulfilled, the handlers of the dispatches resolved before the call
have settled. -/
theorem drains_settled [Truthy V] {pipelines : ℕ} {s : State InMemoryMessageBus}
    (h : (machine (M := M) (InMemoryMessageBus.eventBus I V) pipelines true {}).ReachIf
      RejectsLast s) : Drained s := by
  have hinv : Inv pipelines s := by
    refine h.invariant ?_ fun s a s' hs hC hst => hs.step hC hst
    rintro _ rfl
    exact ⟨Promises.wellFormed_empty, by simp, by simp, by simp⟩
  exact hinv.drained

section Runs

instance (s : State B) : (a : Action C I V M) → Decidable (RejectsLast s a)
  | .settle i .rejected => inferInstanceAs (Decidable (∀ e ∈ s.publications, i ∈ e.handlers →
    ∀ h ∈ e.handlers, h ≠ i → s.promises.status h ≠ .pending))
  | .settle _ .pending | .settle _ .fulfilled => inferInstanceAs (Decidable True)
  | .call _ | .consume .. | .react .. | .drain => inferInstanceAs (Decidable True)

/-- A handler on the bus and one on a queue are called. The latter's rejection is caught. -/
def subscribed : List (Action InMemoryMessageBus.Call ℕ ℕ Unit) :=
  [.call (.on "created" 0), .call (.queueOn "emails" "created" 1),
    .consume 0 [{ event := some { type := "created", payload := 0 }, metadata := () }]]

/-- The promises of the calls to `publish` follow, and then those of `drain`. -/
def drained : List (Action InMemoryMessageBus.Call ℕ ℕ Unit) :=
  [.react 2 false, .react 3 false, .react 4 false, .react 5 false, .drain, .react 6 false,
    .react 7 false]

/-- The handler of the queue rejects last. -/
theorem drained_settled : ∃ s, (machine (InMemoryMessageBus.eventBus ℕ ℕ) 1 true {}).run
      { bus := {} } (subscribed ++ [.settle 0 .fulfilled, .settle 1 .rejected] ++ drained) = some s
    ∧ (∀ d ∈ s.drains, s.promises.status d.1 = .fulfilled) ∧ Drained s := by
  have hrun : (machine (InMemoryMessageBus.eventBus ℕ ℕ) 1 true {}).run { bus := {} }
    (subscribed ++ [.settle 0 .fulfilled, .settle 1 .rejected] ++ drained) = some _ := rfl
  exact ⟨_, hrun, by decide, drains_settled ((Machine.ReachIf.init rfl).run (by decide) hrun)⟩

/-- The handler of the queue rejects while the other is pending. -/
theorem drains_settled_fails :
    ¬ ∀ s, (machine (M := Unit) (InMemoryMessageBus.eventBus ℕ ℕ) 1 true {}).Reach s →
      Drained s := by
  intro h
  have hd := h _ (Machine.reach_of_run rfl (l := subscribed ++ [.settle 1 .rejected] ++ drained)
    rfl)
  exact absurd hd (by unfold Drained; decide)

end Runs

end Publishing

end NodeCqrs
