import NodeCqrs.Publishing

/-!
# Rejections of `publish`

Without a handler for publish errors the promise `finally` makes, which nobody keeps, is rejected
with the call to `publish`. So nothing is rejected unhandled if no call is rejected, and once all
promises have become what they are to become, only then (`discards_iff`).
-/

namespace NodeCqrs

namespace Publishing

open Promises (Grows WellFormed)

variable {B C I V M : Type} {pending : ℕ → List ℕ} {ps ps' : Promises} {i n : ℕ}

section Drain

theorem grows_drainFrom (pending : ℕ → List ℕ) (ps : Promises) :
    ∀ n, Grows ps (drainFrom pending ps n)
  | 0 => .refl ps
  | n + 1 => (grows_drainFrom pending ps n).trans (.create ..)

@[simp] theorem drainFrom_count (pending : ℕ → List ℕ) (ps : Promises) :
    ∀ n, (drainFrom pending ps n).count = ps.count + n
  | 0 => rfl
  | n + 1 => congrArg Nat.succ (drainFrom_count pending ps n)

@[simp] theorem drainFrom_status (pending : ℕ → List ℕ) (ps : Promises) :
    ∀ n, (drainFrom pending ps n).status = ps.status
  | 0 => rfl
  | n + 1 => drainFrom_status pending ps n

/-- The promise of one pipeline's `drain`. -/
theorem drainFrom_origin {k : ℕ} (hk : k < n) :
    (drainFrom pending ps n).origin (ps.count + k) = .allSettled (pending k) := by
  induction n with
  | zero => exact absurd hk (Nat.not_lt_zero k)
  | succ n ih =>
    have hcount := drainFrom_count pending ps n
    rcases Nat.lt_succ_iff_lt_or_eq.1 hk with hk | rfl
    · rw [drainFrom, (Grows.create _ _).origin _ (by omega), ih hk]
    · rw [drainFrom, ← hcount]
      exact Function.update_self ..

theorem wellFormed_drainFrom (h : WellFormed ps) (hp : ∀ k, ∀ p ∈ pending k, p < ps.count) :
    ∀ n, WellFormed (drainFrom pending ps n)
  | 0 => h
  | n + 1 => (wellFormed_drainFrom h hp n).create fun p hmem =>
    Nat.lt_of_lt_of_le (hp n p hmem) (grows_drainFrom pending ps n).count

end Drain

section Step

variable {eventBus : EventBus B C I V} {pipelines : ℕ} {onError : Bool}
  {s s' : State B} {a : Action C I V M}

/-- What was there before a call to `publish` is as it was. -/
def EventBus.Adds (eventBus : EventBus B C I V) : Prop :=
  ∀ bus ps event, Grows ps (eventBus.publish bus ps event).promises

theorem grows_publish (hbus : EventBus.Adds eventBus) (pipeline : ℕ) (s : State B)
    (event : Event I V) :
    Grows s.promises (publish eventBus onError pipeline s event).promises :=
  (hbus s.bus s.promises event).trans ((Grows.create ..).trans (Grows.create ..))

theorem grows_foldl (hbus : EventBus.Adds eventBus) (pipeline : ℕ) : ∀ (events : List (Event I V))
    (s : State B), Grows s.promises (events.foldl (publish eventBus onError pipeline) s).promises
  | [], s => .refl s.promises
  | event :: events, s =>
    (grows_publish hbus pipeline s event).trans (grows_foldl hbus pipeline events _)

theorem delete_subset (origin : PromiseOrigin) (pending : List ℕ) :
    delete origin pending ⊆ pending := by
  cases origin with
  | onFinally p => exact List.erase_subset
  | outer | all | allSettled | onRejected => exact List.Subset.refl _

variable [Truthy V]

theorem step_grows (hbus : EventBus.Adds eventBus)
    (h : step eventBus pipelines onError s a = some s') : Grows s.promises s'.promises := by
  cases a with
  | call c =>
    obtain ⟨bus, -, rfl⟩ := Option.map_eq_some_iff.1 h
    exact .refl _
  | consume pipeline data =>
    simp only [step] at h
    split_ifs at h
    obtain rfl := Option.some.inj h
    exact grows_foldl hbus pipeline _ s
  | settle promise status =>
    obtain ⟨ps, hs, rfl⟩ := Option.map_eq_some_iff.1 h
    exact .settle hs
  | react promise threw =>
    obtain ⟨ps, hr, rfl⟩ := Option.map_eq_some_iff.1 h
    exact .react hr
  | drain =>
    obtain rfl := Option.some.inj h
    exact (grows_drainFrom ..).trans (.create ..)

theorem run_grows (hbus : EventBus.Adds eventBus) {bus : B} {l : List (Action C I V M)}
    (h : (machine eventBus pipelines onError bus).run s l = some s') :
    Grows s.promises s'.promises :=
  Machine.run_keeps (I := fun t => Grows s.promises t.promises)
    (fun _ _ _ hg hst => hg.trans (step_grows hbus hst)) (.refl _) h

end Step

/-- No promise of the pipelines is rejected without a handler attached to it. -/
def Discards (s : State B) : Prop :=
  ∀ i < s.promises.count, s.promises.origin i ≠ .outer → s.promises.status i = .rejected →
    s.promises.handled i = true

/-- Each promise has become what those it is made of say. -/
def Quiet (s : State B) : Prop :=
  ∀ i < s.promises.count, s.promises.status i = .pending → ∀ threw,
    s.promises.outcome threw (s.promises.origin i) = .pending

section Rejections

variable {pipelines : ℕ} {s s' : State Unit} {a : Action Empty I V M}

/-- The promises `catch` and `finally` make of that of a call to `publish`. Nothing is attached to
the latter. -/
structure Chained (ps : Promises) (pending : ℕ → List ℕ) : Prop where
  wellFormed : WellFormed ps
  pending : ∀ k, ∀ p ∈ pending k, p < ps.count ∧ ∀ j, ps.origin p ≠ .onFinally j
  unkept : ∀ i < ps.count, ∀ f ∈ (ps.origin i).sources, ∀ j, ps.origin f ≠ .onFinally j
  chain : ∀ q < ps.count, ps.origin q = .outer → ∃ p < ps.count, ∃ f < ps.count,
    ps.origin p = .onRejected q false ∧ ps.origin f = .onFinally p

namespace Chained

variable {pending' : ℕ → List ℕ} {origin : PromiseOrigin}

/-- Promises settle, and `#pending` may lose some. -/
theorem mono (h : Chained ps pending) (hw : WellFormed ps') (hc : ps'.count = ps.count)
    (ho : ps'.origin = ps.origin) (hp : ∀ k, pending' k ⊆ pending k) : Chained ps' pending' where
  wellFormed := hw
  pending k p hmem := by
    rw [hc, ho]
    exact h.pending k p (hp k hmem)
  unkept := by
    rw [hc, ho]
    exact h.unkept
  chain := by
    rw [hc, ho]
    exact h.chain

/-- `drain` attaches to what is not made by `finally`. -/
theorem create (h : Chained ps pending) (hne : origin ≠ .outer)
    (hs : ∀ f ∈ origin.sources, f < ps.count ∧ ∀ j, ps.origin f ≠ .onFinally j) :
    Chained (ps.create origin) pending where
  wellFormed := h.wellFormed.create fun f hf => (hs f hf).1
  pending k p hmem := by
    obtain ⟨hlt, hp⟩ := h.pending k p hmem
    exact ⟨Nat.lt_succ_of_lt hlt, by rwa [Promises.create_origin hlt]⟩
  unkept i hi f hf := by
    rcases Nat.lt_succ_iff_lt_or_eq.1 hi with hi | rfl
    · rw [Promises.create_origin hi] at hf
      rw [Promises.create_origin (Nat.lt_trans (h.wellFormed.sources i hi f hf) hi)]
      exact h.unkept i hi f hf
    · rw [Promises.create_origin_self] at hf
      rw [Promises.create_origin (hs f hf).1]
      exact (hs f hf).2
  chain q hq ho := by
    rcases Nat.lt_succ_iff_lt_or_eq.1 hq with hq | rfl
    · rw [Promises.create_origin hq] at ho
      obtain ⟨p, hp, f, hf, hpo, hfo⟩ := h.chain q hq ho
      exact ⟨p, Nat.lt_succ_of_lt hp, f, Nat.lt_succ_of_lt hf,
        by rwa [Promises.create_origin hp], by rwa [Promises.create_origin hf]⟩
    · rw [Promises.create_origin_self] at ho
      exact absurd ho hne

/-- A call to `publish` and what is attached to its promise. -/
theorem publish (h : Chained ps pending) (k : ℕ) :
    Chained (((ps.create .outer).create (.onRejected ps.count false)).create
        (.onFinally (ps.count + 1)))
      (Function.update pending k (pending k ++ [ps.count + 1])) := by
  set ps₁ := ps.create .outer
  set ps₂ := ps₁.create (.onRejected ps.count false)
  set ps₃ := ps₂.create (.onFinally (ps.count + 1))
  have hcount₁ : ps₁.count = ps.count + 1 := rfl
  have hcount₂ : ps₂.count = ps.count + 2 := rfl
  have hcount : ps₃.count = ps.count + 3 := rfl
  have hq : ps₃.origin ps.count = .outer := by
    rw [Promises.create_origin (by omega), Promises.create_origin (by omega),
      Promises.create_origin_self]
  have hp : ps₃.origin (ps.count + 1) = .onRejected ps.count false := by
    rw [Promises.create_origin (by omega)]
    exact Promises.create_origin_self ..
  have hf : ps₃.origin (ps.count + 2) = .onFinally (ps.count + 1) :=
    Promises.create_origin_self ..
  have hold : ∀ i < ps.count, ps₃.origin i = ps.origin i :=
    ((Grows.create ..).trans ((Grows.create ..).trans (Grows.create ..))).origin
  have hcases : ∀ i < ps₃.count, i < ps.count ∨ i = ps.count ∨ i = ps.count + 1
      ∨ i = ps.count + 2 := by
    intro i hi
    omega
  refine ⟨?_, fun k' p hmem => ?_, fun i hi f hfs => ?_, fun q hlt ho => ?_⟩
  · refine ((h.wellFormed.create (by simp [PromiseOrigin.sources])).create ?_).create ?_
    · simp [PromiseOrigin.sources]
    · simp [PromiseOrigin.sources]
  · have hcase : p ∈ pending k' ∨ p = ps.count + 1 := by
      by_cases hk : k' = k
      · subst hk
        simpa using hmem
      · exact .inl (by rwa [Function.update_of_ne hk] at hmem)
    rcases hcase with hmem | rfl
    · obtain ⟨hlt, hpo⟩ := h.pending k' p hmem
      exact ⟨by omega, by rwa [hold p hlt]⟩
    · exact ⟨by omega, by simp [hp]⟩
  · rcases hcases i hi with hlt | rfl | rfl | rfl
    · rw [hold i hlt] at hfs
      rw [hold f (Nat.lt_trans (h.wellFormed.sources i hlt f hfs) hlt)]
      exact h.unkept i hlt f hfs
    · simp [hq, PromiseOrigin.sources] at hfs
    · obtain rfl : f = ps.count := by simpa [hp, PromiseOrigin.sources] using hfs
      simp [hq]
    · obtain rfl : f = ps.count + 1 := by simpa [hf, PromiseOrigin.sources] using hfs
      simp [hp]
  · rcases hcases q hlt with hlt | rfl | rfl | rfl
    · rw [hold q hlt] at ho
      obtain ⟨p, hpl, f, hfl, hpo, hfo⟩ := h.chain q hlt ho
      exact ⟨p, by omega, f, by omega, by rwa [hold p hpl], by rwa [hold f hfl]⟩
    · exact ⟨ps.count + 1, by omega, ps.count + 2, by omega, hp, hf⟩
    · simp [hp] at ho
    · simp [hf] at ho

theorem drainFrom (h : Chained ps pending) : ∀ n, Chained (drainFrom pending ps n) pending
  | 0 => h
  | n + 1 => (drainFrom h n).create (by simp) fun p hp => (drainFrom h n).pending n p hp

/-- `drain` of all pipelines. -/
theorem drain (h : Chained ps pending) (n : ℕ) :
    Chained ((Publishing.drainFrom pending ps n).create (.all (List.range' ps.count n)))
      pending := by
  refine (h.drainFrom n).create (by simp) fun i hi => ?_
  obtain ⟨hle, hlt⟩ := List.mem_range'_1.1 hi
  obtain ⟨k, rfl⟩ := Nat.exists_eq_add_of_le hle
  rw [drainFrom_count, drainFrom_origin (by omega)]
  exact ⟨hlt, by simp⟩

theorem foldl (k : ℕ) : ∀ (events : List (Event I V)) (s : State Unit),
    Chained s.promises s.pending →
      Chained (events.foldl (Publishing.publish (anyEventBus I V) false k) s).promises
        (events.foldl (Publishing.publish (anyEventBus I V) false k) s).pending
  | [], _, h => h
  | _ :: events, _, h => foldl k events _ (h.publish k)

theorem step [Truthy V] (h : Chained s.promises s.pending)
    (hst : step (anyEventBus I V) pipelines false s a = some s') :
    Chained s'.promises s'.pending := by
  cases a with
  | call c => exact nomatch c
  | consume pipeline data =>
    simp only [Publishing.step] at hst
    split_ifs at hst
    obtain rfl := Option.some.inj hst
    exact foldl pipeline _ s h
  | settle promise status =>
    obtain ⟨ps, hs, rfl⟩ := Option.map_eq_some_iff.1 hst
    obtain ⟨-, rfl⟩ := Promises.settle_eq hs
    exact h.mono (h.wellFormed.settle hs) rfl rfl fun k => List.Subset.refl _
  | react promise threw =>
    obtain ⟨ps, hr, rfl⟩ := Option.map_eq_some_iff.1 hst
    obtain ⟨-, rfl⟩ := Promises.react_eq hr
    exact h.mono (h.wellFormed.react hr) rfl rfl fun k => delete_subset ..
  | drain =>
    obtain rfl := Option.some.inj hst
    exact h.drain pipelines

end Chained

theorem foldl_status (k : ℕ) : ∀ (events : List (Event I V)) (s : State Unit),
    (events.foldl (publish (anyEventBus I V) false k) s).promises.status = s.promises.status
  | [], _ => rfl
  | event :: events, s => foldl_status k events (publish (anyEventBus I V) false k s event)

variable [Truthy V]

/-- Only a call to `publish` that rejects brings a rejection. -/
theorem unrejected_step (hst : step (anyEventBus I V) pipelines false s a = some s')
    (ha : ∀ q, a ≠ .settle q .rejected) (h : ∀ i, s.promises.status i ≠ .rejected) :
    ∀ i, s'.promises.status i ≠ .rejected := by
  have hupdate : ∀ (i : ℕ) (status : PromiseStatus), status ≠ .rejected →
      ∀ j, Function.update s.promises.status i status j ≠ .rejected := by
    intro i status hne j
    by_cases hji : j = i
    · rw [hji, Function.update_self]
      exact hne
    · rw [Function.update_of_ne hji]
      exact h j
  cases a with
  | call c => exact nomatch c
  | consume pipeline data =>
    simp only [step] at hst
    split_ifs at hst
    obtain rfl := Option.some.inj hst
    simpa only [foldl_status] using h
  | settle promise status =>
    obtain ⟨ps, hs, rfl⟩ := Option.map_eq_some_iff.1 hst
    obtain ⟨-, rfl⟩ := Promises.settle_eq hs
    exact hupdate promise status fun hr => ha promise (by rw [hr])
  | react promise threw =>
    obtain ⟨ps, hr, rfl⟩ := Option.map_eq_some_iff.1 hst
    obtain ⟨-, rfl⟩ := Promises.react_eq hr
    exact hupdate promise _ (Promises.outcome_ne_rejected fun j _ => h j)
  | drain =>
    obtain rfl := Option.some.inj hst
    simpa only [Promises.create_status, drainFrom_status] using h

omit [Truthy V] in
theorem anyEventBus_adds : EventBus.Adds (anyEventBus I V) := fun _ _ _ => Grows.create ..

/-- A call to `publish` that rejects stays rejected. -/
theorem rejected_of_mem {q : ℕ} : ∀ {l : List (Action Empty I V M)} {s s' : State Unit},
    (machine (anyEventBus I V) pipelines false ()).run s l = some s' →
    .settle q .rejected ∈ l → q < s'.promises.count ∧ s'.promises.origin q = .outer
      ∧ s'.promises.status q = .rejected
  | a :: l, s, s', h, hmem => by
    obtain ⟨t, hst, ht⟩ := Option.bind_eq_some_iff.1 h
    rcases List.mem_cons.1 hmem with rfl | hmem
    · obtain ⟨ps, hs, rfl⟩ := Option.map_eq_some_iff.1 hst
      obtain ⟨⟨hq, ho, -, -⟩, rfl⟩ := Promises.settle_eq hs
      have hg := run_grows anyEventBus_adds ht
      have hq' : Function.update s.promises.status q .rejected q = PromiseStatus.rejected :=
        Function.update_self ..
      exact ⟨Nat.lt_of_lt_of_le hq hg.count, (hg.origin q hq).trans ho,
        (hg.status q (by simp)).trans hq'⟩
    · exact rejected_of_mem ht hmem

theorem chained_run {l : List (Action Empty I V M)} (hc : Chained s.promises s.pending)
    (h : (machine (anyEventBus I V) pipelines false ()).run s l = some s') :
    Chained s'.promises s'.pending :=
  Machine.run_keeps (I := fun s => Chained s.promises s.pending)
    (fun _ _ _ hc hst => hc.step hst) hc h

theorem chained_empty : Chained {} fun _ => [] where
  wellFormed := Promises.wellFormed_empty
  pending _ _ h := nomatch h
  unkept i hi := absurd hi (Nat.not_lt_zero i)
  chain q hq := absurd hq (Nat.not_lt_zero q)

/-- What a rejection comes to in the end: the promise `finally` makes is rejected, and nothing is
attached to it. -/
theorem not_discards (hc : Chained s.promises s.pending) (hq : Quiet s) {q : ℕ}
    (hlt : q < s.promises.count) (ho : s.promises.origin q = .outer)
    (hr : s.promises.status q = .rejected) : ¬ Discards s := by
  intro h
  obtain ⟨p, hp, f, hf, hpo, hfo⟩ := hc.chain q hlt ho
  have hpr : s.promises.status p = .rejected := by
    by_cases hpp : s.promises.status p = .pending
    · have hquiet := hq p hp hpp false
      simp [hpo, Promises.outcome, hr] at hquiet
    · exact (hc.wellFormed.of_onRejected_false hp hpo hpp).trans hr
  have hfr : s.promises.status f = .rejected := by
    by_cases hfp : s.promises.status f = .pending
    · have hquiet := hq f hf hfp false
      simp [hfo, Promises.outcome, hpr] at hquiet
    · exact (hc.wellFormed.of_onFinally hf hfo hfp).trans hpr
  have hhandled := h f hf (by simp [hfo]) hfr
  obtain ⟨i, hi, hmem⟩ := (hc.wellFormed.handled f).1 hhandled
  exact hc.unkept i hi f hmem p hfo

/-- With no handler for publish errors: in a run in which no call to `publish` rejects, no promise
is ever rejected unhandled, and in one in which a call rejects, a promise is, once all have become
what they are to become. -/
theorem discards_iff {l : List (Action Empty I V M)}
    (h : (machine (anyEventBus I V) pipelines false ()).run { bus := () } l = some s) :
    ((∀ q, .settle q .rejected ∉ l) → ∀ l' t, l' <+: l →
        (machine (anyEventBus I V) pipelines false ()).run { bus := () } l' = some t → Discards t)
      ∧ (Quiet s → (Discards s ↔ ∀ q, .settle q .rejected ∉ l)) := by
  have hforward : (∀ q, .settle q .rejected ∉ l) → ∀ l' t, l' <+: l →
      (machine (anyEventBus I V) pipelines false ()).run { bus := () } l' = some t →
        Discards t := by
    intro hne l' t hpre ht i hi _ hr
    have hreach : (machine (M := M) (anyEventBus I V) pipelines false ()).ReachIf
        (fun _ a => ∀ q, a ≠ .settle q .rejected) t :=
      (Machine.ReachIf.init rfl).run (Machine.Along.of_forall fun a ha _ q haq =>
        hne q (haq ▸ hpre.subset ha)) ht
    have hunrejected : ∀ i, t.promises.status i ≠ .rejected := by
      refine hreach.invariant (P := fun s => ∀ i, s.promises.status i ≠ .rejected) ?_ ?_
      · rintro _ rfl i
        simp
      · exact fun s a s' hs ha hst => unrejected_step hst ha hs
    exact absurd hr (hunrejected i)
  refine ⟨hforward, fun hq => ⟨fun hd q hmem => ?_, fun hne =>
    hforward hne l s (List.prefix_refl l) h⟩⟩
  obtain ⟨hlt, ho, hr⟩ := rejected_of_mem h hmem
  exact not_discards (chained_run chained_empty h) hq hlt ho hr hd

end Rejections

section Runs

/-- A batch of one event. -/
def created : DispatchPipeline.Batch ℕ ℕ Unit :=
  [{ event := some { type := "created", payload := 0 }, metadata := () }]

/-- The call to `publish` answers, and the promises made of its follow. -/
def answered (status : PromiseStatus) : List (Action Empty ℕ ℕ Unit) :=
  [.consume 0 created, .settle 0 status, .react 1 false, .react 2 false]

/-- The call to `publish` resolves. -/
theorem fulfilled_discards :
    ∃ s, (machine (anyEventBus ℕ ℕ) 1 false ()).run { bus := () } (answered .fulfilled) = some s
      ∧ Quiet s ∧ Discards s := by
  have hne : ∀ q, .settle q .rejected ∉ answered .fulfilled := by simp [answered]
  have hrun : (machine (anyEventBus ℕ ℕ) 1 false ()).run { bus := () } (answered .fulfilled)
    = some _ := rfl
  refine ⟨_, hrun, ?_, (discards_iff hrun).1 hne _ _ (List.prefix_refl _) hrun⟩
  unfold Quiet
  decide

/-- The call to `publish` rejects. -/
theorem discards_fails :
    ¬ ∀ s, (machine (M := Unit) (anyEventBus ℕ ℕ) 1 false ()).Reach s → Discards s := by
  intro h
  have hd := h _ (Machine.reach_of_run rfl (l := answered .rejected) rfl)
  exact absurd (hd 2 (by decide) (by decide) (by decide)) (by decide)

end Runs

end Publishing

end NodeCqrs
