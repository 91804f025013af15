import NodeCqrs.Proofs.AggregateBatches

/-!
# Batches in turn

With the snapshot storage first a batch may have a snapshot saved before the event storage gets it,
and its versions are then taken in the stream but not in the event storage. `InTurn` asks of the
event storage that it rejects no such batch, and that no batch comes there late: where one of two
batches was ahead, the second's versions are past the first's. Then what was committed is the first
part of the stream (`Covered`), or two batches are in each other's way and one of them never ends
(`Clash`).
-/

namespace NodeCqrs

variable {I V σ : Type}

/-- The event comes after the other, if they are of one aggregate. -/
def Past [DecidableEq I] (e e' : Event I V) : Prop :=
  e'.aggregateId = e.aggregateId →
    e'.aggregateVersion.any fun v' => e.aggregateVersion.any (v' < ·)

instance [DecidableEq I] (e e' : Event I V) : Decidable (Past e e') :=
  inferInstanceAs (Decidable (_ → _))

/-- The batch the event storage gets next, and what it gets of it. -/
def Phase.storing : Phase I V σ → Option (List (Event I V) × List (Event I V))
  | .dispatch _ events _ (.processing (.inMemoryEventStorage :: _) data) =>
    some (events, data.filterMap (·.event))
  | _ => none

namespace Dispatching

/-- What of a batch is dispatched. -/
def data : Dispatching I V → List (Envelope I V)
  | .processing _ data | .saving _ data _ => data
  | .reverting _ _ => []

end Dispatching

namespace CommandHandlers

variable [DecidableEq I] [Truthy V]

/-- The event storage does not reject a batch that has a snapshot saved, and a batch it appends is
past those before it, if it or the one before has had snapshots taken out. -/
def InTurn (s : Sys I V σ) : Action I V → Prop
  | .process c => ∀ call ∈ s.calls c, ∀ batch ∈ call.phase.storing,
    let rejected := InMemoryEventStorage.Conflicts s.world.storages.eventStorage batch.2 false
    (call.phase.ahead ≠ [] → ¬ rejected)
      ∧ (¬ rejected → ∀ commit ∈ s.commits,
        call.phase.ahead ≠ [] ∨ commit.events.length < commit.emitted.length →
          ∀ e ∈ batch.1, ∀ e' ∈ commit.emitted, Past e e')
  | _ => True

instance : ∀ (s : Sys I V σ) (a : Action I V), Decidable (InTurn s a)
  | s, .process c => inferInstanceAs (Decidable (∀ call ∈ s.calls c, _))
  | _, .emit .. | _, .settle .. | _, .append _ | _, .handlerReturns .. | _, .execute ..
  | _, .acquire _ | _, .lease _ | _, .restore _ | _, .restoreFails _ | _, .handle _
  | _, .takeSnapshot _ | _, .handlerThrows _ => inferInstanceAs (Decidable True)

/-- The event is of a batch ahead of the event storage, whose other snapshots can be saved. -/
def Stuck [Truthy I] (s : Sys I V σ) (c : ℕ) (e : Event I V) : Prop :=
  ∃ call attempt events awaits, s.calls c = some call
    ∧ call.phase = .dispatch attempt events false awaits ∧ e ∈ call.phase.ahead
    ∧ (∀ S ∈ awaits.unsaved, InMemorySnapshotStorage.hasAggregateId S)
    ∧ ∃ rest, awaits.data = EventDispatcher.envelopes rest false

/-- A batch is ahead of the event storage with an event that is not past what was committed, or two
are whose events are not past each other. -/
def Clash [Truthy I] (s : Sys I V σ) : Prop :=
  ∃ c e, Stuck s c e
    ∧ ((∃ commit ∈ s.commits, ∃ e' ∈ commit.emitted, ¬ Past e e')
      ∨ ∃ c' e', c' ≠ c ∧ Stuck s c' e' ∧ ¬ Past e e' ∧ ¬ Past e' e)

/-- What a step does to the batches on their way: nothing, or the event storage appends one, or the
dispatch of one goes on in another way. -/
inductive Moves [Truthy I] (s : Sys I V σ) : Action I V → Sys I V σ → Prop
  | aside {a : Action I V} {s' : Sys I V σ} (hcommits : s'.commits = s.commits)
      (hcalls : ∀ x, s'.calls x = s.calls x ∨ s.ahead x = [] ∧ s'.ahead x = []) : Moves s a s'
  | commits {c : ℕ} {call : Call I V σ} {attempt : Attempt I V σ} {events : List (Event I V)}
      {flag : Bool} {processors : List Stage} {data data' : List (Envelope I V)}
      {eventStorage : InMemoryEventStorage I V} {commit : Commit I V σ} {s' : Sys I V σ}
      (hc : s.calls c = some call)
      (hp : call.phase = .dispatch attempt events flag
        (.processing (.inMemoryEventStorage :: processors) data))
      (hr : s.world.storages.eventStorage.process data = (eventStorage, .ok data'))
      (hattempt : commit.attempt = attempt) (hemitted : commit.emitted = events)
      (hevents : commit.events = data.filterMap (·.event))
      (hcommits : s'.commits = s.commits ++ [commit])
      (hcalls : s'.calls = Function.update s.calls c (some { call with
        phase := .dispatch attempt events flag (.processing processors data') })) :
      Moves s (.process c) s'
  | dispatches {c : ℕ} {call : Call I V σ} {attempt : Attempt I V σ} {events : List (Event I V)}
      {flag : Bool} {awaits awaits' : Dispatching I V}
      {snapshotStorage : InMemorySnapshotStorage I V} {s' : Sys I V σ}
      (hc : s.calls c = some call) (hp : call.phase = .dispatch attempt events flag awaits)
      (hd : Dispatches s.world.storages awaits snapshotStorage awaits')
      (hcommits : s'.commits = s.commits)
      (hcalls : s'.calls = Function.update s.calls c (some { call with
        phase := .dispatch attempt events flag awaits' })) :
      Moves s (.process c) s'

variable [Truthy I] {known : Prop} {H : CommandHandlers I V σ} {stream : List (Event I V)}
  {s s' : Sys I V σ} {c : ℕ} {call : Call I V σ} {attempt : Attempt I V σ}
  {events : List (Event I V)} {flag : Bool} {a : Action I V}

open AggregateType

omit [DecidableEq I] [Truthy I] in
theorem ahead_of_calls (hc : s.calls c = some call) : s.ahead c = call.phase.ahead := by
  simp [Sys.ahead, hc]

omit [DecidableEq I] [Truthy I] in
theorem ahead_update {call' : Call I V σ}
    (hcalls : s'.calls = Function.update s.calls c (some call')) :
    s'.ahead c = call'.phase.ahead :=
  ahead_of_calls (by rw [hcalls, Function.update_self])

omit [DecidableEq I] [Truthy I] in
/-- No snapshot of a batch is saved yet when its dispatch starts. -/
theorem ahead_dispatch (attempt : Attempt I V σ) (events : List (Event I V)) (flag flag' : Bool) :
    Phase.ahead (.dispatch attempt events flag (H.dispatch events flag')) = [] := by
  simp only [dispatch]
  split_ifs
  · rfl
  · simp [Phase.ahead, Dispatching.unsaved, snapshotEvents_envelopes]

/-- A step of a call that has nothing ahead of the event storage, and comes to nothing that has. -/
theorem Moves.of_update {call' : Option (Call I V σ)} (hcommits : s'.commits = s.commits)
    (hcalls : s'.calls = Function.update s.calls c call') (hs : s.ahead c = [])
    (hs' : call'.elim [] (·.phase.ahead) = []) : Moves s a s' := by
  refine .aside hcommits fun x => ?_
  by_cases hx : x = c
  · subst hx
    exact .inr ⟨hs, by rw [Sys.ahead, hcalls, Function.update_self, hs']⟩
  · exact .inl (by rw [hcalls, Function.update_of_ne hx])

/-- What is ahead changes when a first snapshot is saved. -/
theorem Dispatches.ahead {w : Storages I V} {awaits awaits' : Dispatching I V}
    {snapshotStorage : InMemorySnapshotStorage I V} (attempt : Attempt I V σ)
    (events : List (Event I V)) (flag : Bool) (hd : Dispatches w awaits snapshotStorage awaits') :
    (Phase.dispatch attempt events flag awaits').ahead = []
      ∨ (Phase.dispatch attempt events flag awaits').ahead =
        (Phase.dispatch attempt events flag awaits).ahead
      ∨ ∃ processors data event todo, awaits = .saving processors data (event :: todo)
        ∧ awaits' = .saving processors data todo
        ∧ w.snapshotStorage.saveAggregateSnapshot event = .ok snapshotStorage := by
  cases hd with
  | rejected _ | notSaved _ | deletes _ | notDeleted => exact .inl rfl
  | starts =>
    refine .inr (.inl ?_)
    rw [Phase.ahead, Phase.ahead]
    exact if_congr (by simp [Dispatching.processors, Dispatching.unsaved]) rfl rfl
  | saves hsave => exact .inr (.inr ⟨_, _, _, _, rfl, rfl, hsave⟩)
  | saved =>
    refine .inr (.inl ?_)
    rw [Phase.ahead, Phase.ahead]
    exact if_congr (by simp [Dispatching.processors, Dispatching.unsaved,
      snapshotEvents_withoutSnapshots]) rfl rfl

theorem Effect.moves (h : Effect H s a s') : Moves s a s' := by
  have hahead : ∀ {c call}, s.calls c = some call → call.phase.ahead = [] → s.ahead c = [] :=
    fun hc hp => (ahead_of_calls hc).trans hp
  cases h with
  | @execute c h cmd hc =>
    obtain ⟨call', hp, hcalls⟩ := execute_calls H s c h cmd
    refine .of_update (by simp) hcalls (by simp [Sys.ahead, hc]) ?_
    rcases hp with ⟨awaits, hp⟩ | ⟨ref, hp⟩ <;> simp [hp, Phase.ahead]
  | acquire hc _ hp _ => exact .of_update rfl rfl (hahead hc (by simp [hp, Phase.ahead])) rfl
  | @lease c call hc hp =>
    obtain ⟨ref, hcalls⟩ := getAggregate_calls H s c call
    exact .of_update (by simp) hcalls (hahead hc (by simp [hp, Phase.ahead])) rfl
  | restored _ _ | failed _ => exact .aside rfl fun _ => .inl rfl
  | notHandled hc hp =>
    exact .of_update (by simp [throwFrom]) (by simp [throwFrom]; rfl)
      (hahead hc (by simp [hp, Phase.ahead])) rfl
  | notRestored hc hp =>
    exact .of_update (by simp) (by simp; rfl) (hahead hc (by simp [hp, Phase.ahead])) rfl
  | handled hc hp _ _ => exact .of_update rfl rfl (hahead hc (by simp [hp, Phase.ahead])) rfl
  | called hc hp _ _ _ => exact .of_update rfl rfl (hahead hc (by simp [hp, Phase.ahead])) rfl
  | threw hc hp _ _ =>
    exact .of_update (by simp [throwFrom]; rfl) (by simp [throwFrom]; rfl)
      (hahead hc (by simp [hp, Phase.ahead])) rfl
  | @returned c call attempt _ b _ _ _ events hc hp _ _ _ hs =>
    have hnone := hahead hc (by simp [hp, Phase.ahead])
    rcases hs _ rfl with ⟨-, rfl⟩ | ⟨-, rfl⟩
    · exact .of_update (by simp; rfl) (by simp; rfl) hnone rfl
    · exact .of_update rfl rfl hnone
        (ahead_dispatch { attempt with shouldTakeSnapshot := b } events false false)
  | committed hc hp hr => exact .commits hc hp hr rfl rfl rfl rfl rfl
  | dispatching hc hp hd => exact .dispatches hc hp hd rfl rfl
  | dispatched hc hp ha =>
    refine .of_update (by simp) (by simp; rfl) (hahead hc ?_) rfl
    rcases ha with ⟨data, rfl⟩ | ⟨-, error, rfl⟩ <;>
      simp [hp, Phase.ahead, Dispatching.processors]
  | @settled c call attempt events error decision s' hc hp hs =>
    have hnone := hahead hc (by simp [hp, Phase.ahead, Dispatching.processors])
    rcases hs with ⟨-, rfl⟩ | ⟨-, rfl⟩ | ⟨-, -, rfl⟩
    · exact .of_update (by simp) (by simp; rfl) hnone rfl
    · obtain ⟨ref, hcalls⟩ := getAggregate_calls H (resetCacheEntry s call) c
        { call with attempts := call.attempts + 1 }
      exact .of_update (by simp) (hcalls.trans (by simp; rfl)) hnone rfl
    · exact .of_update (by simp [Sys.goOn])
        (congrArg (Function.update · c _) (resetCacheEntry_calls s call)) hnone
        (ahead_dispatch attempt events true true)
  | append => exact .aside rfl fun _ => .inl rfl

omit [DecidableEq I] in
theorem Stuck.of_calls {e : Event I V} (h : Stuck s c e) (hc : s'.calls c = s.calls c) :
    Stuck s' c e := by
  obtain ⟨call, attempt, events, awaits, hcall, h⟩ := h
  exact ⟨call, attempt, events, awaits, hc.trans hcall, h⟩

/-- Such a batch goes on until the event storage appends it, in its turn. -/
theorem Stuck.step {e : Event I V} (hs : Stuck s c e) (hturn : InTurn s a) (h : Moves s a s') :
    Stuck s' c e
      ∨ ∃ commit, s'.commits = s.commits ++ [commit] ∧ e ∈ commit.emitted
        ∧ (∀ k ∈ s.commits, ∀ e' ∈ k.emitted, Past e e')
        ∧ ∀ x, x ≠ c → s'.calls x = s.calls x := by
  obtain ⟨call, attempt, events, awaits, hc, hp, he, hids, rest, hrest⟩ := id hs
  have hne : call.phase.ahead ≠ [] := List.ne_nil_of_mem he
  cases h with
  | aside hcommits hcalls =>
    refine .inl (hs.of_calls ((hcalls c).resolve_right fun h => hne ?_))
    rw [← ahead_of_calls hc, h.1]
  | @commits c₀ _ _ _ _ _ _ _ _ commit _ hc₀ hp₀ hr _ hemitted _ hcommits hcalls =>
    by_cases hx : c = c₀
    swap
    · exact .inl (hs.of_calls (by rw [hcalls, Function.update_of_ne hx]))
    subst hx
    obtain rfl := Option.some.inj (hc.symm.trans hc₀)
    obtain ⟨rfl, rfl, rfl, rfl⟩ := Phase.dispatch.inj (hp.symm.trans hp₀)
    obtain rfl : _ = EventDispatcher.envelopes rest false := hrest
    have hok : ¬ InMemoryEventStorage.Conflicts s.world.storages.eventStorage rest false := by
      rw [← EventDispatcher.process_rejects, hr]
      simp
    refine .inr ⟨commit, hcommits, hemitted ▸ (mem_ahead.1 (hp ▸ he)).2, fun k hk e' he' => ?_,
      fun x hx => by rw [hcalls, Function.update_of_ne hx]⟩
    refine (hturn call hc (commit.emitted, rest) ?_).2 hok k hk (.inl hne) e ?_ e' he'
    · rw [hp]
      simp [Phase.storing, hemitted]
    · exact hemitted ▸ (mem_ahead.1 (hp ▸ he)).2
  | @dispatches c₀ _ _ _ _ _ awaits' _ _ hc₀ hp₀ hd hcommits hcalls =>
    by_cases hx : c = c₀
    swap
    · exact .inl (hs.of_calls (by rw [hcalls, Function.update_of_ne hx]))
    subst hx
    obtain rfl := Option.some.inj (hc.symm.trans hc₀)
    obtain ⟨rfl, rfl, rfl, rfl⟩ := Phase.dispatch.inj (hp.symm.trans hp₀)
    have hgoes : e ∈ (Phase.dispatch attempt events false awaits').ahead →
        (∀ S ∈ awaits'.unsaved, InMemorySnapshotStorage.hasAggregateId S) →
        (∃ rest, awaits'.data = EventDispatcher.envelopes rest false) → Stuck s' c e :=
      fun h1 h2 h3 => ⟨_, attempt, events, awaits', by rw [hcalls, Function.update_self], rfl, h1,
        h2, h3⟩
    rw [hp] at he
    obtain ⟨⟨hES, hlt⟩, hmem⟩ := mem_ahead.1 he
    refine .inl ?_
    cases hd with
    | @rejected processors data _ _ hr =>
      obtain rfl : data = EventDispatcher.envelopes rest false := hrest
      have hrejected := (EventDispatcher.process_rejects _ _).1 ⟨_, hr⟩
      refine absurd hrejected ((hturn call hc (events, rest) ?_).1 hne)
      rw [hp]
      simp [Phase.storing]
    | starts =>
      exact hgoes (mem_ahead.2 ⟨⟨List.mem_of_ne_of_mem (by simp) hES, hlt⟩, hmem⟩) hids
        ⟨rest, hrest⟩
    | saves _ =>
      exact hgoes (mem_ahead.2 ⟨⟨hES, Nat.lt_of_succ_lt hlt⟩, hmem⟩)
        (fun S hS => hids S (List.mem_cons_of_mem _ hS)) ⟨rest, hrest⟩
    | @notSaved _ _ event _ _ _ hsave =>
      obtain ⟨id, hid, ht⟩ := Option.any_eq_true .. |>.1 (hids event List.mem_cons_self)
      rw [InMemorySnapshotStorage.saveAggregateSnapshot_eq _ hid, if_pos ht] at hsave
      cases hsave
    | @saved processors data =>
      obtain rfl : data = EventDispatcher.envelopes rest false := hrest
      have hnone := snapshotEvents_withoutSnapshots (EventDispatcher.envelopes rest false)
      refine hgoes (mem_ahead.2 ⟨⟨hES, ?_⟩, hmem⟩) (fun S hS => ?_)
        ⟨_, withoutSnapshots_envelopes ..⟩
      · rwa [Dispatching.unsaved, hnone]
      · rw [Dispatching.unsaved, hnone] at hS
        cases hS
    | deletes _ | notDeleted => simp [Dispatching.processors] at hES

/-- Batches in each other's way stay so, as long as they are in turn. -/
theorem Clash.step (hs : Clash s) (hturn : InTurn s a) (h : Moves s a s') : Clash s' := by
  have hcommits : ∀ k ∈ s.commits, k ∈ s'.commits := by
    intro k hk
    cases h with
    | aside hcommits _ | dispatches _ _ _ hcommits _ => exact hcommits ▸ hk
    | commits _ _ _ _ _ _ hcommits _ => exact hcommits ▸ List.mem_append_left _ hk
  obtain ⟨c, e, hstuck, hcase⟩ := hs
  rcases hstuck.step hturn h with hstuck' | ⟨commit, hnew, he, hpast, hcalls⟩
  · rcases hcase with ⟨k, hk, e', he', hne⟩ | ⟨c', e', hcc, hstuck₂, hne, hne'⟩
    · exact ⟨c, e, hstuck', .inl ⟨k, hcommits k hk, e', he', hne⟩⟩
    · rcases hstuck₂.step hturn h with hstuck₂' | ⟨commit, hnew, he', -, -⟩
      · exact ⟨c, e, hstuck', .inr ⟨c', e', hcc, hstuck₂', hne, hne'⟩⟩
      · exact ⟨c, e, hstuck', .inl ⟨commit, by simp [hnew], e', he', hne⟩⟩
  · rcases hcase with ⟨k, hk, e', he', hne⟩ | ⟨c', e', hcc, hstuck₂, hne, hne'⟩
    · exact absurd (hpast k hk e' he') hne
    · exact ⟨c', e', hstuck₂.of_calls (hcalls c' hcc), .inl ⟨commit, by simp [hnew], e, he, hne'⟩⟩

variable (known H stream) in
/-- What is known of a batch the event storage has yet to get. -/
structure Pending (attempt : Attempt I V σ) (events : List (Event I V)) (flag : Bool)
    (awaits : Dispatching I V) : Prop where
  unforced : flag = false
  nonempty : events ≠ []
  count : awaits.processors.count .inMemoryEventStorage = 1
  data : ∃ rest, Carries H events rest ∧ awaits.data = EventDispatcher.envelopes rest false
    ∧ awaits.unsaved <:+ rest.filter (isSnapshotEvent ·)
  synced : H.aggregateType.SyncedIf known stream attempt.start
  emits : ∃ aggregate, Emits known H attempt.start aggregate events
  truthy : (Phase.dispatch attempt events flag awaits).ahead ≠ [] → truthy attempt.start.id = true

theorem Data.pending {awaits : Dispatching I V} (hD : Data known H stream s)
    (hc : s.calls c = some call) (hp : call.phase = .dispatch attempt events flag awaits)
    (hES : .inMemoryEventStorage ∈ awaits.processors) :
    Pending known H stream attempt events flag awaits := by
  have hok := hD.kept.calls c call hc
  have hpending : ∀ {processors data todo},
      Travels known H stream s.world attempt events processors data todo →
      processors = awaits.processors → data = awaits.data → todo = awaits.unsaved →
      flag = false → Pending known H stream attempt events flag awaits := by
    rintro processors data todo ⟨hne, aggregate, applied, -, -, ht⟩ rfl rfl rfl hflag
    rcases ht with ⟨h1, ⟨rest, hrest, hdata, htodo⟩, h2, h3, h4⟩ | ⟨h1, -⟩
    · refine ⟨hflag, hne, h1, ⟨rest, hrest, hdata, htodo⟩, h2, ⟨aggregate, h3⟩, fun hahead => ?_⟩
      obtain ⟨e, he⟩ := List.exists_mem_of_ne_nil _ hahead
      exact (h4 (mem_ahead.1 he).1.2).1
    · exact absurd hES (List.count_eq_zero.1 h1)
  simp only [CallOK, hp] at hok
  obtain ⟨hflag, hok⟩ := hok
  cases awaits with
  | processing _ _ | saving _ _ _ => exact hpending hok.2 rfl rfl rfl hflag
  | reverting _ _ => simp [Dispatching.processors] at hES

namespace Pending

variable {awaits : Dispatching I V}

/-- The batch begins at the version its instance had. -/
theorem first (h : Pending known H stream attempt events flag awaits) : ∃ e ∈ events,
    e.aggregateId = some attempt.start.id ∧ e.aggregateVersion = some attempt.start.version := by
  obtain ⟨aggregate, he⟩ := h.emits
  obtain ⟨e, events, rfl⟩ := List.exists_cons_of_ne_nil h.nonempty
  exact ⟨e, List.mem_cons_self, he.adds.ofId e List.mem_cons_self, he.adds.numbered.1⟩

/-- An event of the batch is of its aggregate, and not before the first. -/
theorem version (h : Pending known H stream attempt events flag awaits) {e : Event I V}
    (he : e ∈ events) : e.aggregateId = some attempt.start.id
      ∧ ∃ v, e.aggregateVersion = some v ∧ attempt.start.version ≤ v := by
  obtain ⟨aggregate, hem⟩ := h.emits
  obtain ⟨v, hv, hle, -⟩ := hem.adds.numbered.bounds he
  exact ⟨hem.adds.ofId e he, v, hv, hle⟩

/-- With no snapshot saved yet all of the batch is dispatched. -/
theorem rest_eq (h : Pending known H stream attempt events flag awaits)
    (hahead : (Phase.dispatch attempt events flag awaits).ahead = []) :
    awaits.data = EventDispatcher.envelopes events false := by
  obtain ⟨rest, hrest, hdata, htodo⟩ := h.data
  rcases hrest with rfl | ⟨-, rfl⟩
  · exact hdata
  rw [hdata, List.filter_eq_self.2]
  -- no snapshots are left, so there were none
  have hnone : awaits.unsaved = [] := by
    refine List.suffix_nil.1 (htodo.trans ?_)
    rw [List.suffix_nil, List.filter_filter, List.filter_eq_nil_iff]
    simp
  intro e he
  by_contra hS
  refine List.ne_nil_of_mem (mem_ahead.2 ⟨⟨?_, ?_⟩, he⟩) hahead
  · exact List.count_pos_iff.1 (h.count ▸ Nat.one_pos)
  · rw [hnone]
    exact List.length_pos_of_mem (List.mem_filter.2 ⟨he, by simpa using hS⟩)

end Pending

theorem Data.stuck {e : Event I V} (hD : Data known H stream s) (he : e ∈ s.ahead c) :
    Stuck s c e := by
  rcases hc : s.calls c with _ | call
  · simp [Sys.ahead, hc] at he
  rw [ahead_of_calls hc] at he
  rcases hp : call.phase with _ | _ | _ | ⟨attempt, events, flag, awaits⟩ <;> rw [hp] at he
  case dispatch =>
    obtain ⟨hES, -⟩ := (mem_ahead.1 he).1
    have hP := hD.pending hc hp hES
    obtain rfl := hP.unforced
    obtain ⟨rest, hrest, hdata, htodo⟩ := hP.data
    refine ⟨call, attempt, events, awaits, hc, hp, hp ▸ he, fun S hS => ?_, rest, hdata⟩
    have hmem : S ∈ events := hrest.subset (List.mem_filter.1 (htodo.subset hS)).1
    rw [InMemorySnapshotStorage.hasAggregateId, (hP.version hmem).1, Option.any_some]
    exact hP.truthy (List.ne_nil_of_mem he)
  all_goals cases he

omit [Truthy I] [Truthy V] in
theorem not_past {e e' : Event I V} {v v' : ℕ} (hid : e'.aggregateId = e.aggregateId)
    (hv : e.aggregateVersion = some v) (hv' : e'.aggregateVersion = some v') (hle : v ≤ v') :
    ¬ Past e e' := by
  simp [Past, hid, hv, hv', hle]

/-- What stands in the stream past what was committed is on its way. -/
theorem Covered.gap (hD : Data known H stream s) (hC : Covered stream s) {id : I} {n : ℕ}
    (hle : (stored (s.commits.flatMap (·.emitted)) id).length ≤ n)
    (hlt : n < (stored stream id).length) :
    ∃ e c, e.aggregateId = some id ∧ e.aggregateVersion = some n ∧ e ∈ s.ahead c := by
  obtain ⟨e, he⟩ : ∃ e, (stored stream id)[n]? = some e := ⟨_, List.getElem?_eq_getElem hlt⟩
  have hv : e.aggregateVersion = some n := by rw [(hD.numbered id).getElem? he, Nat.zero_add]
  obtain ⟨hmem, hid⟩ := List.mem_filter.1 (List.mem_of_getElem? he)
  rcases hC.covers e hmem with hE | ⟨c, hc⟩
  · -- what was committed has smaller versions
    have hnum : Numbered (·.aggregateVersion) 0
        (stored (s.commits.flatMap (·.emitted)) id) := by
      rw [List.prefix_iff_eq_take.1 (hC.committed id)]
      exact (hD.numbered id).take _
    obtain ⟨v, hv', -, hlt'⟩ := hnum.bounds (List.mem_filter.2 ⟨hE, hid⟩)
    obtain rfl := Option.some.inj (hv.symm.trans hv')
    omega
  · exact ⟨e, c, by simpa using hid, hv, hc⟩

namespace Covered

omit [Truthy I] in
/-- No batch is committed or comes ahead. -/
theorem congr (hC : Covered stream s) (hcommits : s'.commits = s.commits)
    (hcovers : ∀ c e, e ∈ s.ahead c → e ∈ s'.ahead c)
    (hahead : ∀ c call attempt events flag awaits, s'.calls c = some call →
      call.phase = .dispatch attempt events flag awaits → call.phase.ahead ≠ [] →
        StandsAt stream attempt.start.id attempt.start.version events) : Covered stream s' where
  committed := hcommits ▸ hC.committed
  covers e he := hcommits ▸ (hC.covers e he).imp_right fun ⟨c, hc⟩ => ⟨c, hcovers c e hc⟩
  commits := hcommits ▸ hC.commits
  ahead := hahead

omit [Truthy I] in
theorem aside (hC : Covered stream s) (hcommits : s'.commits = s.commits)
    (hcalls : ∀ x, s'.calls x = s.calls x ∨ s.ahead x = [] ∧ s'.ahead x = []) :
    Covered stream s' := by
  refine hC.congr hcommits (fun c e he => ?_) fun c call attempt events flag awaits hc hp hne => ?_
  · rcases hcalls c with h | ⟨h, -⟩
    · rwa [Sys.ahead, h]
    · rw [h] at he
      cases he
  · rcases hcalls c with h | ⟨-, h⟩
    · exact hC.ahead c call attempt events flag awaits (h ▸ hc) hp hne
    · rw [ahead_of_calls hc] at h
      exact absurd h hne

omit [Truthy I] in
/-- A dispatch goes on with its batch ahead as it was. -/
theorem goesOn (hC : Covered stream s) {awaits awaits' : Dispatching I V}
    (hc : s.calls c = some call) (hp : call.phase = .dispatch attempt events flag awaits)
    (hcommits : s'.commits = s.commits)
    (hcalls : s'.calls = Function.update s.calls c
      (some { call with phase := .dispatch attempt events flag awaits' }))
    (hsame : (Phase.dispatch attempt events flag awaits').ahead = call.phase.ahead) :
    Covered stream s' := by
  refine hC.congr hcommits (fun x e he => ?_)
    fun x callx attempt' events' flag' awaits₁ hx hpx hne => ?_
  · by_cases hxc : x = c
    · subst hxc
      rw [ahead_of_calls hc] at he
      rw [ahead_update hcalls]
      exact hsame ▸ he
    · rwa [Sys.ahead, hcalls, Function.update_of_ne hxc]
  · rw [hcalls] at hx
    by_cases hxc : x = c
    · subst hxc
      rw [Function.update_self] at hx
      obtain rfl := Option.some.inj hx
      obtain ⟨rfl, rfl, rfl, rfl⟩ := Phase.dispatch.inj hpx
      exact hC.ahead x call attempt events flag awaits hc hp (hsame ▸ hne)
    · rw [Function.update_of_ne hxc] at hx
      exact hC.ahead x callx attempt' events' flag' awaits₁ hx hpx hne

omit [Truthy I] in
/-- The event storage appends the batch that is next in the stream. -/
theorem commit (hC : Covered stream s) {stream' : List (Event I V)} {commit : Commit I V σ}
    {call' : Call I V σ} (hpre : stream <+: stream')
    (hmem : ∀ e ∈ stream', e ∈ stream ∨ e ∈ commit.emitted)
    (hid : ∀ e ∈ commit.emitted, e.aggregateId = some commit.attempt.start.id)
    (hst : StandsAt stream' commit.attempt.start.id commit.attempt.start.version commit.emitted)
    (hlen : (stored (s.commits.flatMap (·.emitted)) commit.attempt.start.id).length =
      commit.attempt.start.version)
    (hown : ∀ e ∈ s.ahead c, e ∈ commit.emitted) (hahead : call'.phase.ahead = [])
    (hcommits : s'.commits = s.commits ++ [commit])
    (hcalls : s'.calls = Function.update s.calls c (some call')) : Covered stream' s' where
  committed id := by
    rw [hcommits, List.flatMap_append, List.flatMap_singleton,
      stored_append (a := commit.attempt.start) hid]
    split_ifs with h
    · subst h
      obtain ⟨pre, post, hst, hpost⟩ := hst
      have hE := (hC.committed commit.attempt.start.id).trans (stored_isPrefix hpre _)
      rw [List.prefix_iff_eq_take.1 hE, hst, hlen, ← hpost, List.append_assoc, List.take_left]
      exact ⟨post, by rw [List.append_assoc]⟩
    · rw [List.append_nil]
      exact (hC.committed id).trans (stored_isPrefix hpre id)
  covers e he := by
    rw [hcommits, List.flatMap_append, List.flatMap_singleton, List.mem_append]
    rcases hmem e he with he | he
    · rcases hC.covers e he with h | ⟨x, hx⟩
      · exact .inl (.inl h)
      · by_cases hxc : x = c
        · exact .inl (.inr (hown e (hxc ▸ hx)))
        · exact .inr ⟨x, by rwa [Sys.ahead, hcalls, Function.update_of_ne hxc]⟩
    · exact .inl (.inr he)
  commits k hk := by
    rw [hcommits] at hk
    rcases List.mem_append.1 hk with hk | hk
    · exact (hC.commits k hk).mono hpre
    · obtain rfl := List.mem_singleton.1 hk
      exact hst
  ahead x callx attempt events flag awaits hx hpx hne := by
    rw [hcalls] at hx
    by_cases hxc : x = c
    · subst hxc
      rw [Function.update_self] at hx
      exact absurd (Option.some.inj hx ▸ hahead) hne
    · rw [Function.update_of_ne hxc] at hx
      exact (hC.ahead x callx attempt events flag awaits hx hpx hne).mono hpre

omit [Truthy I] in
/-- A batch that starts where the stream of its aggregate ends comes ahead. -/
theorem save (hC : Covered stream s) {call' : Call I V σ} {awaits : Dispatching I V}
    (hp : call'.phase = .dispatch attempt events flag awaits) (hahead : call'.phase.ahead = events)
    (hid : ∀ e ∈ events, e.aggregateId = some attempt.start.id)
    (hv : attempt.start.version = (stored stream attempt.start.id).length) (hown : s.ahead c = [])
    (hcommits : s'.commits = s.commits)
    (hcalls : s'.calls = Function.update s.calls c (some call')) :
    Covered (stream ++ events) s' where
  committed id := by
    rw [hcommits]
    exact (hC.committed id).trans (stored_isPrefix (List.prefix_append ..) id)
  covers e he := by
    rw [hcommits]
    rcases List.mem_append.1 he with he | he
    · refine (hC.covers e he).imp_right fun ⟨x, hx⟩ => ⟨x, ?_⟩
      have hxc : x ≠ c := by
        rintro rfl
        rw [hown] at hx
        cases hx
      rwa [Sys.ahead, hcalls, Function.update_of_ne hxc]
    · refine .inr ⟨c, ?_⟩
      rw [ahead_update hcalls]
      exact hahead ▸ he
  commits k hk := (hC.commits k (hcommits ▸ hk)).mono (List.prefix_append ..)
  ahead x callx attempt' events' flag' awaits' hx hpx hne := by
    rw [hcalls] at hx
    by_cases hxc : x = c
    · subst hxc
      rw [Function.update_self] at hx
      obtain rfl := Option.some.inj hx
      obtain ⟨rfl, rfl, -, -⟩ := Phase.dispatch.inj (hp.symm.trans hpx)
      rw [hv]
      exact standsAt_append hid
    · rw [Function.update_of_ne hxc] at hx
      exact (hC.ahead x callx attempt' events' flag' awaits' hx hpx hne).mono
        (List.prefix_append ..)

end Covered

/-- The batch the event storage appends is not behind what was committed. -/
theorem Data.not_behind (hD : Data known H stream s) (hC : Covered stream s)
    {awaits : Dispatching I V} (hP : Pending known H stream attempt events flag awaits)
    (hp : call.phase = .dispatch attempt events flag awaits)
    {rest : List (Event I V)} (hdata : awaits.data = EventDispatcher.envelopes rest false)
    (hok : ¬ InMemoryEventStorage.Conflicts s.world.storages.eventStorage rest false)
    (hturn : ∀ commit ∈ s.commits,
      call.phase.ahead ≠ [] ∨ commit.events.length < commit.emitted.length →
        ∀ e ∈ events, ∀ e' ∈ commit.emitted, Past e e') :
    (stored (s.commits.flatMap (·.emitted)) attempt.start.id).length ≤ attempt.start.version := by
  by_contra hlt
  obtain ⟨e, he, hid, hv⟩ := hP.first
  have hnum : Numbered (·.aggregateVersion) 0
      (stored (s.commits.flatMap (·.emitted)) attempt.start.id) := by
    rw [List.prefix_iff_eq_take.1 (hC.committed attempt.start.id)]
    exact (hD.numbered attempt.start.id).take _
  -- an event of the version the batch begins at was emitted before
  obtain ⟨e', he', hv'⟩ := hnum.exists_mem (v := attempt.start.version) (Nat.zero_le _) (by omega)
  obtain ⟨he', hid'⟩ := List.mem_filter.1 he'
  obtain ⟨commit, hk, he'⟩ := List.mem_flatMap.1 he'
  have hid' : e'.aggregateId = some attempt.start.id := by simpa using hid'
  have hnot := not_past (hid'.trans hid.symm) hv hv' (Nat.le_refl _)
  by_cases hcase : call.phase.ahead ≠ [] ∨ commit.events.length < commit.emitted.length
  · exact hnot (hturn commit hk hcase e he e' he')
  · -- all of both batches gets to the event storage, so they conflict
    obtain ⟨hahead, hlen⟩ := not_or.1 hcase
    rw [not_not, hp] at hahead
    have hall : commit.events = commit.emitted :=
      (hD.commits commit hk).carries.sublist.eq_of_length_le (Nat.le_of_not_lt hlen)
    obtain rfl : rest = events := by
      have h := congrArg (List.filterMap (·.event)) (hdata.symm.trans (hP.rest_eq hahead))
      rwa [EventDispatcher.filterMap_envelopes, EventDispatcher.filterMap_envelopes] at h
    have hlog : e' ∈ s.log := by
      rw [hD.log]
      exact List.mem_flatMap.2 ⟨commit, hk, hall ▸ he'⟩
    refine hok ⟨rfl, e, he, ?_⟩
    simp only [InMemoryEventStorage.conflict, hid, hv]
    rw [if_pos (List.any_eq_true.2 ⟨e', hlog, by
      simp [InMemoryEventStorage.sameVersion, hid, hv, hid', hv']⟩)]
    rfl

/-- The event storage appends a batch: it is next in the stream, or another is in its way. -/
theorem Covered.appends (hD : Data known H stream s) (hC : Covered stream s)
    {processors : List Stage} {data data' : List (Envelope I V)}
    {eventStorage : InMemoryEventStorage I V} {commit : Commit I V σ}
    (hturn : InTurn s (.process c)) (hc : s.calls c = some call)
    (hp : call.phase = .dispatch attempt events flag
      (.processing (.inMemoryEventStorage :: processors) data))
    (hr : s.world.storages.eventStorage.process data = (eventStorage, .ok data'))
    (hattempt : commit.attempt = attempt) (hemitted : commit.emitted = events)
    (hcommits : s'.commits = s.commits ++ [commit])
    (hcalls : s'.calls = Function.update s.calls c (some { call with
      phase := .dispatch attempt events flag (.processing processors data') })) :
    Clash s' ∨ ∃ stream', Data known H stream' s ∧ Covered stream' s' := by
  subst hattempt hemitted
  have hP := hD.pending hc hp List.mem_cons_self
  obtain ⟨rest, -, hdata, -⟩ := hP.data
  obtain ⟨aggregate, hem⟩ := hP.emits
  obtain ⟨e, he, hid, hv⟩ := hP.first
  obtain rfl : data = EventDispatcher.envelopes rest false := hdata
  have hok : ¬ InMemoryEventStorage.Conflicts s.world.storages.eventStorage rest false := by
    rw [← EventDispatcher.process_rejects, hr]
    simp
  have hbehind := hD.not_behind hC hP hp rfl hok
    ((hturn call hc (commit.emitted, rest) (by rw [hp]; simp [Phase.storing])).2 hok)
  have hown : ∀ e ∈ s.ahead c, e ∈ commit.emitted := fun e he => by
    rw [ahead_of_calls hc, hp] at he
    exact (mem_ahead.1 he).2
  have hahead : (Phase.dispatch commit.attempt commit.emitted flag
      (.processing processors data')).ahead = [] := by
    have hcount : processors.count .inMemoryEventStorage = 0 := by
      simpa [Dispatching.processors] using hP.count
    refine List.eq_nil_iff_forall_not_mem.2 fun e he => ?_
    exact List.count_eq_zero.1 hcount (mem_ahead.1 he).1.1
  have hmine : commit ∈ s'.commits := by simp [hcommits]
  rcases Nat.lt_or_ge (stored (s.commits.flatMap (·.emitted)) commit.attempt.start.id).length
    (stored stream commit.attempt.start.id).length with hlt | hge
  · obtain ⟨e₁, c₁, hid₁, hv₁, he₁⟩ := hC.gap hD (Nat.le_refl _) hlt
    by_cases hcc : c₁ = c
    · -- the batch was ahead, and is the next
      subst hcc
      obtain ⟨v, hv', hle⟩ := (hP.version (hown e₁ he₁)).2
      obtain rfl := Option.some.inj (hv₁.symm.trans hv')
      have hne : call.phase.ahead ≠ [] := by
        rw [← ahead_of_calls hc]
        exact List.ne_nil_of_mem he₁
      exact .inr ⟨stream, hD, hC.commit (List.prefix_refl _) (fun e he => .inl he) hem.adds.ofId
        (hC.ahead _ _ _ _ _ _ hc hp hne) (Nat.le_antisymm hbehind hle) hown hahead hcommits hcalls⟩
    · -- the batch that is next is another's
      refine .inl ⟨c₁, e₁, (hD.stuck he₁).of_calls (by rw [hcalls, Function.update_of_ne hcc]),
        .inl ⟨commit, hmine, e, he, not_past (hid.trans hid₁.symm) hv₁ hv hbehind⟩⟩
  · have hv' : commit.attempt.start.version = (stored stream commit.attempt.start.id).length :=
      Nat.le_antisymm hP.synced.version (Nat.le_trans hge hbehind)
    refine .inr ⟨stream ++ commit.emitted, hD.grow hP.synced hem hv',
      hC.commit (List.prefix_append ..) (fun e he => List.mem_append.1 he) hem.adds.ofId ?_ ?_ hown
        hahead hcommits hcalls⟩
    · rw [hv']
      exact standsAt_append hem.adds.ofId
    · exact Nat.le_antisymm hbehind (hv' ▸ hge)

/-- The first snapshot of a batch is saved ahead of the event storage: the batch is next in the
stream, or another is in its way. -/
theorem Covered.saves (hD : Data known H stream s) (hC : Covered stream s)
    {processors : List Stage} {data : List (Envelope I V)} {event : Event I V}
    {todo : List (Event I V)} {snapshotStorage : InMemorySnapshotStorage I V}
    (hc : s.calls c = some call)
    (hp : call.phase = .dispatch attempt events flag (.saving processors data (event :: todo)))
    (hsave : s.world.storages.snapshotStorage.saveAggregateSnapshot event = .ok snapshotStorage)
    (hfirst : call.phase.ahead = [])
    (hahead : (Phase.dispatch attempt events flag (.saving processors data todo)).ahead ≠ [])
    (hcommits : s'.commits = s.commits)
    (hcalls : s'.calls = Function.update s.calls c (some { call with
      phase := .dispatch attempt events flag (.saving processors data todo) })) :
    Clash s' ∨ ∃ stream', Data known H stream' s ∧ Covered stream' s' := by
  obtain ⟨e₀, he₀⟩ := List.exists_mem_of_ne_nil _ hahead
  have hmem := (mem_ahead.1 he₀).1
  have hP := hD.pending hc hp hmem.1
  obtain ⟨aggregate, hem⟩ := hP.emits
  obtain ⟨rest, hrest, hdata, htodo⟩ := hP.data
  obtain ⟨e, he, hid, hv⟩ := hP.first
  have hown : s.ahead c = [] := by rw [ahead_of_calls hc, hfirst]
  have hids : ∀ S ∈ event :: todo, S.aggregateId = some attempt.start.id := fun S hS =>
    hem.adds.ofId S (hrest.subset (List.mem_filter.1 (htodo.subset hS)).1)
  rw [InMemorySnapshotStorage.saveAggregateSnapshot_eq _ (hids event List.mem_cons_self)] at hsave
  split_ifs at hsave with htruthy
  have hstuck : Stuck s' c e := by
    obtain rfl := hP.unforced
    refine ⟨_, attempt, events, .saving processors data todo, by rw [hcalls, Function.update_self],
      rfl, mem_ahead.2 ⟨hmem, he⟩, fun S hS => ?_, rest, hdata⟩
    rwa [InMemorySnapshotStorage.hasAggregateId, hids S (List.mem_cons_of_mem _ hS),
      Option.any_some]
  rcases Nat.lt_or_ge attempt.start.version (stored stream attempt.start.id).length with hlt | hge
  · obtain ⟨e₁, he₁⟩ : ∃ e₁, (stored stream attempt.start.id)[attempt.start.version]? = some e₁ :=
      ⟨_, List.getElem?_eq_getElem hlt⟩
    have hv₁ : e₁.aggregateVersion = some attempt.start.version := by
      rw [(hD.numbered _).getElem? he₁, Nat.zero_add]
    obtain ⟨hmem₁, hid₁⟩ := List.mem_filter.1 (List.mem_of_getElem? he₁)
    have hid₁ : e₁.aggregateId = e.aggregateId := by simpa [hid] using hid₁
    have hnot : ¬ Past e e₁ := not_past hid₁ hv hv₁ (Nat.le_refl _)
    rcases hC.covers e₁ hmem₁ with hE | ⟨c₁, hc₁⟩
    · -- the first event's version was committed
      obtain ⟨commit, hk, he₁⟩ := List.mem_flatMap.1 hE
      exact .inl ⟨c, e, hstuck, .inl ⟨commit, hcommits ▸ hk, e₁, he₁, hnot⟩⟩
    · -- another batch is ahead with it
      have hcc : c₁ ≠ c := by
        rintro rfl
        rw [hown] at hc₁
        cases hc₁
      exact .inl ⟨c, e, hstuck, .inr ⟨c₁, e₁, hcc,
        (hD.stuck hc₁).of_calls (by rw [hcalls, Function.update_of_ne hcc]), hnot,
        not_past hid₁.symm hv₁ hv (Nat.le_refl _)⟩⟩
  · have hv' := Nat.le_antisymm hP.synced.version hge
    have hall : (Phase.dispatch attempt events flag (.saving processors data todo)).ahead =
        events := if_pos hmem
    exact .inr ⟨stream ++ events, hD.grow hP.synced hem hv', hC.save rfl hall hem.adds.ofId hv' hown
      hcommits hcalls⟩

/-- What a step does to the batches on their way leaves a stream that the rest of it is in, or two
batches in each other's way. -/
theorem Covered.step (hD : Data known H stream s) (hC : Covered stream s) (hturn : InTurn s a)
    (h : Moves s a s') : Clash s' ∨ ∃ stream', Data known H stream' s ∧ Covered stream' s' := by
  cases h with
  | aside hcommits hcalls => exact .inr ⟨stream, hD, hC.aside hcommits hcalls⟩
  | commits hc hp hr hattempt hemitted _ hcommits hcalls =>
    exact hC.appends hD hturn hc hp hr hattempt hemitted hcommits hcalls
  | @dispatches c call attempt events flag awaits awaits' _ _ hc hp hd hcommits hcalls =>
    by_cases hsame : (Phase.dispatch attempt events flag awaits').ahead = call.phase.ahead
    · exact .inr ⟨stream, hD, hC.goesOn hc hp hcommits hcalls hsame⟩
    -- a batch that is ahead stays so
    have hfirst : call.phase.ahead = [] := by
      by_contra hne
      obtain ⟨e, he⟩ := List.exists_mem_of_ne_nil _ hne
      rcases (hD.stuck (ahead_of_calls hc ▸ he)).step hturn (.dispatches hc hp hd hcommits hcalls)
        with hstuck | ⟨commit, hnew, -⟩
      · obtain ⟨call', attempt', events', awaits₁, hc', hp', he', -⟩ := hstuck
        rw [hcalls, Function.update_self] at hc'
        obtain rfl := Option.some.inj hc'
        refine hsame ?_
        rw [hp] at he ⊢
        rw [Phase.ahead, Phase.ahead, if_pos (mem_ahead.1 he).1, if_pos (mem_ahead.1 he').1]
      · rw [hcommits] at hnew
        simp at hnew
    rcases hd.ahead attempt events flag
      with h | h | ⟨processors, data, event, todo, rfl, rfl, hsave⟩
    · exact absurd (h.trans hfirst.symm) hsame
    · exact absurd (h.trans (congrArg Phase.ahead hp.symm)) hsame
    · exact hC.saves hD hc hp hsave hfirst (fun h => hsame (h.trans hfirst.symm)) hcommits hcalls

theorem data_init (known : Prop) (H : CommandHandlers I V σ) :
    Data known H [] ({} : Sys I V σ) where
  numbered _ := trivial
  replays _ id n _ := by
    rw [show stored ([] : List (Event I V)) id = [] from rfl, List.take_nil]
    exact trivial
  taken _ _ _ _ _ hS := by cases hS
  snapshots _ _ h := by cases h
  restoring _ _ _ h := by cases h
  log := rfl
  commits _ h := by cases h
  kept := ⟨fun _ _ _ h => (by cases h), fun _ _ h => (by cases h)⟩

omit [Truthy I] in
theorem covered_init : Covered [] ({} : Sys I V σ) where
  committed _ := List.prefix_refl _
  covers _ h := by cases h
  commits _ h := by cases h
  ahead _ _ _ _ _ _ h := by cases h

/-- In a run whose batches are in turn no conflict is ignored, no snapshot is made but by
`takeSnapshot` and, where the states are known, no handler goes on after a failed `emit`. -/
structure Orderly (known : Prop) (H : CommandHandlers I V σ) (s : Sys I V σ) (a : Action I V) :
    Prop where
  neverIgnores : NeverIgnores s a
  regular : known → Regular s a
  makesSnapshots : MakesSnapshots H s a
  inTurn : InTurn s a

variable (known) in
/-- Where batches are in turn the instances are synced with a stream that what is committed comes
first in, but for two batches that are in each other's way. -/
theorem reach_covered (hE : H.pipeline.count .inMemoryEventStorage = 1)
    (hT : .inMemorySnapshotStorage ∈ H.pipeline → H.aggregateType.RestoresSnapshots)
    (h : H.machine.ReachIf (Orderly known H) s) :
    Clash s ∨ ∃ stream, Data known H stream s ∧ Covered stream s := by
  refine h.invariant_of_reach (P := fun s => Clash s ∨ ∃ stream, Data known H stream s
    ∧ Covered stream s) (fun s hs => ?_) fun s a s' hr ih hO hst => ?_
  · obtain rfl : s = {} := hs
    exact .inr ⟨[], data_init known H, covered_init⟩
  have heffect := step_effect hst
  rcases ih with hclash | ⟨stream, hD, hC⟩
  · exact .inl (hclash.step hO.inTurn heffect.moves)
  · refine (hC.step hD hO.inTurn heffect.moves).imp_right fun ⟨stream', hD', hC'⟩ => ?_
    exact ⟨stream', heffect.data hE hT hD' (reach_shape hr) hO.neverIgnores hO.regular
      hO.makesSnapshots hC', hC'⟩

/-- With no batch ahead of the event storage all of the stream is committed. -/
theorem Covered.stored_eq (hD : Data known H stream s) (hC : Covered stream s)
    (hahead : ∀ c, s.ahead c = []) (id : I) :
    stored (s.commits.flatMap (·.emitted)) id = stored stream id := by
  refine (hC.committed id).eq_of_length_le (Nat.le_of_not_lt fun hlt => ?_)
  obtain ⟨e, c, -, -, he⟩ := hC.gap hD (Nat.le_refl _) hlt
  rw [hahead c] at he
  cases he

omit [DecidableEq I] in
theorem not_stuck {e : Event I V} (hahead : ∀ c, s.ahead c = []) : ¬ Stuck s c e := by
  rintro ⟨call, attempt, events, awaits, hc, hp, he, -⟩
  have h := hahead c
  rw [ahead_of_calls hc] at h
  rw [h] at he
  cases he

theorem not_clash (hahead : ∀ c, s.ahead c = []) : ¬ Clash s :=
  fun ⟨_, _, h, _⟩ => not_stuck hahead h

/-- No batch is ahead of the event storage, and all of each was stored. -/
structure Plain (s : Sys I V σ) : Prop where
  ahead : ∀ c, s.ahead c = []
  whole : ∀ commit ∈ s.commits, commit.events = commit.emitted

namespace Plain

omit [Truthy I] in
theorem inTurn (hp : Plain s) : InTurn s a := by
  cases a with
  | process c =>
    intro call hc batch _
    have hahead : call.phase.ahead = [] := (ahead_of_calls hc) ▸ hp.ahead c
    refine ⟨fun h => absurd hahead h, fun _ commit hk h => ?_⟩
    rcases h with h | h
    · exact absurd hahead h
    · rw [hp.whole commit hk] at h
      exact absurd h (Nat.lt_irrefl _)
  | _ => trivial

/-- Where no snapshot is saved early, none is ahead. -/
theorem step (hp : Plain s) (hD : Data known H stream s) (hs : SavesCommitted H s a)
    (h : Moves s a s') : Plain s' := by
  have hother : ∀ {c call'}, s'.calls = Function.update s.calls c (some call') →
      call'.phase.ahead = [] → ∀ x, s'.ahead x = [] := by
    intro c call' hcalls hahead x
    by_cases hx : x = c
    · rw [hx, ahead_update hcalls, hahead]
    · rw [Sys.ahead, hcalls, Function.update_of_ne hx]
      exact hp.ahead x
  cases h with
  | aside hcommits hcalls =>
    refine ⟨fun x => ?_, hcommits ▸ hp.whole⟩
    rcases hcalls x with h | h
    · rw [Sys.ahead, h]
      exact hp.ahead x
    · exact h.2
  | @commits c call attempt events flag processors data data' _ commit _ hc hph _ _ hemitted hevents
      hcommits hcalls =>
    have hP := hD.pending hc hph List.mem_cons_self
    have hcount : processors.count .inMemoryEventStorage = 0 := by
      simpa [Dispatching.processors] using hP.count
    refine ⟨hother hcalls (List.eq_nil_iff_forall_not_mem.2 fun e he =>
      List.count_eq_zero.1 hcount (mem_ahead.1 he).1.1), fun k hk => ?_⟩
    rw [hcommits] at hk
    rcases List.mem_append.1 hk with hk | hk
    · exact hp.whole k hk
    · obtain rfl := List.mem_singleton.1 hk
      have hahead := hp.ahead c
      rw [ahead_of_calls hc, hph] at hahead
      have hall : data = EventDispatcher.envelopes events false := hP.rest_eq hahead
      rw [hevents, hall, EventDispatcher.filterMap_envelopes, hemitted]
  | @dispatches c call attempt events flag awaits awaits' _ _ hc hph hd hcommits hcalls =>
    refine ⟨hother hcalls ?_, hcommits ▸ hp.whole⟩
    have hahead := hp.ahead c
    rw [ahead_of_calls hc, hph] at hahead
    rcases hd.ahead attempt events flag with h | h | ⟨processors, data, event, todo, rfl, rfl, -⟩
    · exact h
    · exact h.trans hahead
    · have hok := hD.kept.calls c call hc
      simp only [CallOK, hph] at hok
      have hearly := hs (hok.2.1.subset List.mem_cons_self)
      refine if_neg fun h => ?_
      simp only [hc, hph, Option.any_some, Phase.savesEarly, decide_eq_false_iff_not] at hearly
      exact hearly h.1

end Plain

variable (known) in
/-- Where no snapshot is saved early the stream is what is stored. -/
theorem reach_plain (hE : H.pipeline.count .inMemoryEventStorage = 1)
    (hT : .inMemorySnapshotStorage ∈ H.pipeline → H.aggregateType.RestoresSnapshots)
    (h : H.machine.ReachIf (fun s a => NeverIgnores s a ∧ (known → Regular s a)
      ∧ SavesCommitted H s a) s) :
    Plain s ∧ ∃ stream, Data known H stream s ∧ Covered stream s := by
  refine h.invariant_of_reach (P := fun s => Plain s ∧ ∃ stream, Data known H stream s
    ∧ Covered stream s) (fun s hs => ?_) fun s a s' hr ⟨hp, stream, hD, hC⟩ ⟨hN, hR, hs⟩ hst => ?_
  · obtain rfl : s = {} := hs
    exact ⟨⟨fun _ => rfl, fun _ h => (by cases h)⟩, [], data_init known H, covered_init⟩
  have heffect := step_effect hst
  have hp' := hp.step hD hs heffect.moves
  obtain ⟨stream', hD', hC'⟩ := (hC.step hD hp.inTurn heffect.moves).resolve_left
    (not_clash hp'.ahead)
  exact ⟨hp', stream', heffect.data hE hT hD' (reach_shape hr) hN hR hs.makesSnapshots hC', hC'⟩

/-- Then the stream of each aggregate is what is stored of it. -/
theorem Plain.stored_eq (hp : Plain s) (hD : Data known H stream s) (hC : Covered stream s)
    (id : I) : stored stream id = stored s.log id := by
  rw [← hC.stored_eq hD hp.ahead, hD.log]
  congr 1
  exact List.flatMap_congr fun commit hk => (hp.whole commit hk).symm

end CommandHandlers

end NodeCqrs
