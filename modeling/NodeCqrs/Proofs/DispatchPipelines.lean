import Mathlib.Data.List.Forall2
import Mathlib.Data.List.ReduceOption
import NodeCqrs.DispatchPipelines
import NodeCqrs.Proofs.EventDispatchPipeline

/-!
# Pipelines of one dispatcher do not meet

A batch goes to the pipeline the router names, or to the default one (`Goes`). A pipeline is where
its own part of the log takes it (`Inv.pipelines`): what is set up is set up before the first push,
and everything else is done by one pipeline alone.
-/

namespace NodeCqrs.DispatchPipelines

open DispatchPipeline (Batch History State)

variable {I V M ε : Type}

/-- The batch of a push. -/
def pushOf : DispatchPipeline.Action I V M ε → Option (Batch I V M)
  | .push data => some data
  | _ => none

/-- The pushes of a log, each with its pipeline. -/
def pushes (log : List (String × DispatchPipeline.Action I V M ε)) : List (String × Batch I V M) :=
  log.filterMap fun e => (pushOf e.2).map (e.1, ·)

/-- The pipeline the router asks for. -/
def Dispatch.desired (call : Dispatch I V M ε) : String :=
  (call.dispatcher.eventDispatchRouter call.events call.metadata).getD
    EventDispatcher.DEFAULT_PIPELINE

/-- What a call pushes, and where: to the pipeline the router asks for, if there is one of that name,
or else to the default one. A call without events, or with none of the two pipelines, throws. -/
inductive Goes (call : Dispatch I V M ε) : Option (String × Batch I V M) → Prop
  | desired (hset : isEventSet call.events = true) (hne : call.events ≠ [])
      (h : call.dispatcher.pipelines call.desired ≠ none) :
      Goes call (some (call.desired, EventDispatcher.batch call.events call.metadata))
  | default (hset : isEventSet call.events = true) (hne : call.events ≠ [])
      (h : call.dispatcher.pipelines call.desired = none)
      (hd : call.dispatcher.pipelines EventDispatcher.DEFAULT_PIPELINE ≠ none) :
      Goes call (some (EventDispatcher.DEFAULT_PIPELINE,
        EventDispatcher.batch call.events call.metadata))
  | noEvents (h : isEventSet call.events = false ∨ call.events = []) : Goes call none
  | noPipeline (h : call.dispatcher.pipelines call.desired = none)
      (hd : call.dispatcher.pipelines EventDispatcher.DEFAULT_PIPELINE = none) : Goes call none

section Pushed

variable [Truthy ε] [Truthy V] {processors : List DispatchPipeline.Processor}
  {concurrentLimit : ℕ}

omit [Truthy ε] [Truthy V] in
theorem revertFrom_pushed (s : State I V M ε)
    (envelope : DispatchPipeline.EventBatchEnvelope I V M ε) (error : ε) (k : ℕ) :
    (DispatchPipeline.revertFrom processors s envelope error k).pushed = s.pushed := by
  unfold DispatchPipeline.revertFrom
  split <;> rfl

theorem step_pushed {s s' : State I V M ε} {a : DispatchPipeline.Action I V M ε}
    (hst : DispatchPipeline.step processors concurrentLimit s a = some s') :
    s'.pushed = s.pushed ++ (pushOf a).toList := by
  cases a with
  | push data =>
    obtain rfl := Option.some.inj hst
    rfl
  | start k =>
    simp only [DispatchPipeline.step] at hst
    split at hst
    · split_ifs at hst
      obtain rfl := Option.some.inj hst
      exact (List.append_nil _).symm
    · cases hst
  | answer k id answer =>
    simp only [DispatchPipeline.step] at hst
    split_ifs at hst
    obtain rfl := Option.some.inj hst
    exact (List.append_nil _).symm
  | consume =>
    simp only [DispatchPipeline.step] at hst
    split at hst
    · split at hst <;> obtain rfl := Option.some.inj hst
      · exact (revertFrom_pushed ..).trans (List.append_nil _).symm
      · exact (List.append_nil _).symm
    · cases hst
  | revertReturned =>
    simp only [DispatchPipeline.step] at hst
    split at hst
    · split at hst
      · obtain rfl := Option.some.inj hst
        exact (revertFrom_pushed ..).trans (List.append_nil _).symm
      · cases hst
    · cases hst

theorem run_pushed : ∀ {l : List (DispatchPipeline.Action I V M ε)} {s s' : State I V M ε},
    (DispatchPipeline.machine processors concurrentLimit).run s l = some s' →
      s'.pushed = s.pushed ++ l.filterMap pushOf
  | [], s, s', hr => by
    obtain rfl := Option.some.inj hr
    exact (List.append_nil _).symm
  | a :: l, s, s', hr => by
    obtain ⟨t, hst, ht⟩ := Option.bind_eq_some_iff.1 hr
    rw [run_pushed ht, step_pushed hst, List.append_assoc, List.filterMap_cons]
    rcases pushOf a with _ | data <;> rfl

end Pushed

theorem route_goes (d : EventDispatcher I V M ε) (events : List (Event I V)) (metadata : M) :
    Goes { dispatcher := d, events, metadata } ((d.route events metadata).toOption.map
      (·, EventDispatcher.batch events metadata)) := by
  unfold EventDispatcher.route
  by_cases hinvalid : (!isEventSet events || events.isEmpty) = true
  · rw [if_pos hinvalid]
    exact .noEvents (by simpa using hinvalid)
  · rw [if_neg hinvalid]
    obtain ⟨hset, hne⟩ : isEventSet events = true ∧ events ≠ [] := by simpa using hinvalid
    rcases hdesired : d.pipelines ((d.eventDispatchRouter events metadata).getD
      EventDispatcher.DEFAULT_PIPELINE) with _ | p
    · rcases hdefault : d.pipelines EventDispatcher.DEFAULT_PIPELINE with _ | p
      · simp only [hdesired, Option.isSome_none, Bool.false_eq_true, if_false]
        exact .noPipeline hdesired hdefault
      · simp only [hdesired, Option.isSome_none, Bool.false_eq_true, if_false,
          Option.isSome_some, if_true]
        exact .default hset hne hdesired (by simp [hdefault])
    · simp only [hdesired, Option.isSome_some, if_true]
      exact .desired hset hne (by simp [Dispatch.desired, hdesired])

variable {s s' : Sys I V M ε} {d : EventDispatcher I V M ε} {name : String}
  {p : EventDispatchPipeline I V M ε} {processors : List DispatchPipeline.Processor}
  {concurrentLimit : Option ℕ}

theorem set_self (d : EventDispatcher I V M ε) (name : String)
    (p : EventDispatchPipeline I V M ε) : (d.set name p).pipelines name = some p :=
  Function.update_self ..

theorem set_of_ne (d : EventDispatcher I V M ε) (p : EventDispatchPipeline I V M ε)
    {name name' : String} (h : name' ≠ name) : (d.set name p).pipelines name' = d.pipelines name' :=
  Function.update_of_ne h ..

theorem foldlM_addProcessor : ∀ {processors : List DispatchPipeline.Processor}
    {p p' : EventDispatchPipeline I V M ε},
    processors.foldlM EventDispatchPipeline.addProcessor p = .ok p' →
      p'.state = p.state ∧ p'.processing = p.processing
  | [], p, p', h => by
    obtain rfl := Except.ok.inj h
    exact ⟨rfl, rfl⟩
  | preprocessor :: processors, p, p', h => by
    rw [List.foldlM_cons] at h
    rcases hp : p.addProcessor preprocessor with error | q <;> rw [hp] at h
    · cases h
    · obtain ⟨h1, h2⟩ := foldlM_addProcessor h
      unfold EventDispatchPipeline.addProcessor at hp
      split_ifs at hp
      obtain rfl := Except.ok.inj hp
      exact ⟨h1, h2⟩

/-- A pipeline is added that has done nothing, under a name that none has. -/
theorem addPipeline_eq (h : s.dispatcher.addPipeline name processors concurrentLimit = .ok d) :
    s.dispatcher.pipelines name = none ∧ ∃ p : EventDispatchPipeline I V M ε, p.state = {}
      ∧ d = s.dispatcher.set name p := by
  unfold EventDispatcher.addPipeline at h
  rcases hname : assertDefined name "pipeline name" with error | _ <;> rw [hname] at h
  · cases h
  rcases hp : s.dispatcher.pipelines name with _ | p <;> simp only [hp] at h
  · rcases hf : processors.foldlM EventDispatchPipeline.addProcessor
        ({ concurrentLimit := concurrentLimit.getD s.dispatcher.concurrentLimit } :
          EventDispatchPipeline I V M ε) with error | p <;> simp only [hf] at h
    · cases h
    · exact ⟨rfl, p, (foldlM_addProcessor hf).1, (Except.ok.inj h).symm⟩
  · cases h

/-- A processor is added to a pipeline that has not started. -/
theorem addPipelineProcessor_eq {preprocessor : DispatchPipeline.Processor}
    {pipelineName : Option String}
    (h : s.dispatcher.addPipelineProcessor preprocessor pipelineName = .ok d) :
    ∃ name p, s.dispatcher.pipelines name = some p ∧ p.processing = false
      ∧ d = s.dispatcher.set name { p with processors := p.processors ++ [preprocessor] } := by
  unfold EventDispatcher.addPipelineProcessor at h
  dsimp only at h
  split at h
  · cases h
  next p hp =>
  rcases hq : p.addProcessor preprocessor with error | q <;> rw [hq] at h
  · cases h
  · unfold EventDispatchPipeline.addProcessor at hq
    split_ifs at hq with hprocessing
    obtain rfl := Except.ok.inj hq
    exact ⟨_, p, hp, by simpa using hprocessing, (Except.ok.inj h).symm⟩

variable [Truthy ε] [Truthy V]

/-- A pipeline has done its part of the log, which is empty before it starts. -/
structure Apart (log : List (String × DispatchPipeline.Action I V M ε)) (name : String)
    (p : EventDispatchPipeline I V M ε) : Prop where
  run : (DispatchPipeline.machine p.processors p.concurrentLimit).run {} (part name log) =
    some p.state
  idle : p.processing = false → part name log = []

/-- No call to `process` rejects with a value that is falsy. -/
def RejectsTruthy (_ : Sys I V M ε) : Action I V M ε → Prop
  | .pipeline _ action => DispatchPipeline.RejectsTruthy ({} : State I V M ε) action
  | _ => True

structure Inv (s : Sys I V M ε) : Prop where
  pipelines : ∀ name p, s.dispatcher.pipelines name = some p → Apart s.log name p
  named : ∀ e ∈ s.log, s.dispatcher.pipelines e.1 ≠ none
  goes : ∃ went, List.Forall₂ Goes s.calls went ∧ pushes s.log = went.reduceOption
  rejects : ∀ e ∈ s.log, DispatchPipeline.RejectsTruthy ({} : State I V M ε) e.2

/-- A pipeline is set up before its part begins. -/
theorem Inv.update (hi : Inv s) (hpart : part name s.log = []) (hp : p.state = {}) :
    Inv { s with dispatcher := s.dispatcher.set name p } := by
  refine ⟨fun name' p' hp' => ?_, fun e he => ?_, hi.goes, hi.rejects⟩
  · by_cases hname : name' = name
    · subst hname
      rw [set_self] at hp'
      obtain rfl := Option.some.inj hp'
      exact ⟨by rw [hpart, hp]; rfl, fun _ => hpart⟩
    · rw [set_of_ne _ _ hname] at hp'
      exact hi.pipelines name' p' hp'
  · by_cases hname : e.1 = name
    · rw [hname, set_self]
      exact nofun
    · rw [set_of_ne _ _ hname]
      exact hi.named e he

theorem Inv.addPipeline (hi : Inv s)
    (h : s.dispatcher.addPipeline name processors concurrentLimit = .ok d) :
    Inv { s with dispatcher := d } := by
  obtain ⟨hnone, p, hp, rfl⟩ := addPipeline_eq h
  exact hi.update (part_eq_nil fun e he hname => hi.named e he (hname ▸ hnone)) hp

theorem Inv.addPipelineProcessor (hi : Inv s) {preprocessor : DispatchPipeline.Processor}
    {pipelineName : Option String}
    (h : s.dispatcher.addPipelineProcessor preprocessor pipelineName = .ok d) :
    Inv { s with dispatcher := d } := by
  obtain ⟨name, p, hp, hidle, rfl⟩ := addPipelineProcessor_eq h
  have hpart := (hi.pipelines name p hp).idle hidle
  have hrun := (hi.pipelines name p hp).run
  rw [hpart] at hrun
  exact hi.update hpart (Option.some.inj hrun).symm

/-- One pipeline does something, with the calls that are known after it. -/
theorem Inv.act (hi : Inv s) (calls : List (Dispatch I V M ε))
    {a : DispatchPipeline.Action I V M ε}
    (ha : DispatchPipeline.RejectsTruthy ({} : State I V M ε) a)
    (hgoes : ∃ went, List.Forall₂ Goes calls went
      ∧ pushes (s.log ++ [(name, a)]) = went.reduceOption)
    (hst : ({ s with calls } : Sys I V M ε).act name a = some s') : Inv s' := by
  unfold Sys.act at hst
  obtain ⟨p, hp, hst⟩ := Option.bind_eq_some_iff.1 hst
  obtain ⟨state, hstate, hst⟩ := Option.bind_eq_some_iff.1 hst
  obtain rfl := Option.some.inj hst
  refine ⟨fun name' p' hp' => ?_, fun e he => ?_, hgoes, fun e he => ?_⟩
  · by_cases hname : name' = name
    · subst hname
      rw [set_self] at hp'
      obtain rfl := Option.some.inj hp'
      exact ⟨run_part_concat (hi.pipelines name' p hp).run hstate, nofun⟩
    · rw [set_of_ne _ _ hname] at hp'
      obtain ⟨hrun, hidle⟩ := hi.pipelines name' p' hp'
      have hpart : part name' (s.log ++ [(name, a)]) = part name' s.log :=
        part_concat_of_ne (Ne.symm hname)
      exact ⟨hpart ▸ hrun, fun h => hpart.trans (hidle h)⟩
  · by_cases hname : e.1 = name
    · rw [hname, set_self]
      exact nofun
    · rw [set_of_ne _ _ hname]
      rcases List.mem_append.1 he with he | he
      · exact hi.named e he
      · exact absurd (congrArg Prod.fst (List.mem_singleton.1 he)) hname
  · rcases List.mem_append.1 he with he | he
    · exact hi.rejects e he
    · rw [List.mem_singleton.1 he]
      exact ha

/-- What is no push leaves the pushes as they are. -/
theorem Inv.other (hi : Inv s) {a : DispatchPipeline.Action I V M ε}
    (ha : DispatchPipeline.RejectsTruthy ({} : State I V M ε) a) (hp : pushOf a = none)
    (hst : s.act name a = some s') : Inv s' := by
  refine hi.act s.calls ha ?_ hst
  obtain ⟨went, hwent, hpushes⟩ := hi.goes
  refine ⟨went, hwent, ?_⟩
  rw [pushes, List.filterMap_append, ← pushes, hpushes]
  simp [hp]

theorem Inv.dispatch (hi : Inv s) {events : List (Event I V)} {metadata : M}
    (hst : step s (.dispatch events metadata) = some s') : Inv s' := by
  obtain ⟨went, hwent, hpushes⟩ := hi.goes
  have hgoes := List.rel_append hwent (.cons (route_goes s.dispatcher events metadata) .nil)
  simp only [DispatchPipelines.step] at hst
  split at hst
  · rename_i error hroute
    obtain rfl := Option.some.inj hst
    rw [hroute] at hgoes
    refine ⟨hi.pipelines, hi.named, ⟨_, hgoes, ?_⟩, hi.rejects⟩
    rw [List.reduceOption_append]
    exact hpushes.trans (List.append_nil _).symm
  · rename_i name hroute
    rw [hroute] at hgoes
    refine hi.act _ (a := .push _) trivial ⟨_, hgoes, ?_⟩ hst
    rw [pushes, List.filterMap_append, ← pushes, hpushes, List.reduceOption_append]
    rfl

theorem Inv.step (hi : Inv s) {a : Action I V M ε} (ha : RejectsTruthy s a)
    (hst : step s a = some s') : Inv s' := by
  cases a with
  | addPipeline name processors concurrentLimit =>
    obtain rfl := Option.some.inj hst
    rcases h : s.dispatcher.addPipeline name processors concurrentLimit with error | d
    · exact hi
    · exact hi.addPipeline h
  | addPipelineProcessor preprocessor pipelineName =>
    obtain rfl := Option.some.inj hst
    rcases h : s.dispatcher.addPipelineProcessor preprocessor pipelineName with error | d
    · exact hi
    · exact hi.addPipelineProcessor h
  | dispatch events metadata => exact hi.dispatch hst
  | pipeline name action =>
    cases action with
    | push data => cases hst
    | start k =>
      simp only [DispatchPipelines.step] at hst
      split_ifs at hst
      exact hi.other (a := .start k) ha rfl hst
    | answer k id answer =>
      simp only [DispatchPipelines.step] at hst
      split_ifs at hst
      exact hi.other (a := .answer k id answer) ha rfl hst
    | consume =>
      simp only [DispatchPipelines.step] at hst
      split_ifs at hst
      exact hi.other (a := .consume) ha rfl hst
    | revertReturned =>
      simp only [DispatchPipelines.step] at hst
      split_ifs at hst
      exact hi.other (a := .revertReturned) ha rfl hst

theorem Inv.foldlM : ∀ {pipelines : List (String × List DispatchPipeline.Processor)}
    {s : Sys I V M ε} {d : EventDispatcher I V M ε}, Inv s →
    pipelines.foldlM (fun d p => d.addPipeline p.1 p.2 none) s.dispatcher = .ok d →
      Inv { s with dispatcher := d }
  | [], s, d, hi, h => by
    obtain rfl := Except.ok.inj h
    exact hi
  | p :: pipelines, s, d, hi, h => by
    rw [List.foldlM_cons] at h
    rcases hp : s.dispatcher.addPipeline p.1 p.2 none with error | d' <;> rw [hp] at h
    · cases h
    · exact (hi.addPipeline hp).foldlM h

theorem Inv.addPipelines (hi : Inv s) {pipeline : Option (List DispatchPipeline.Processor)}
    {pipelines : Option (List (String × List DispatchPipeline.Processor))}
    (h : s.dispatcher.addPipelines pipeline pipelines = .ok d) :
    Inv { s with dispatcher := d } := by
  unfold EventDispatcher.addPipelines at h
  split at h
  · exact hi.foldlM h
  · exact hi.addPipeline h
  · exact hi.addPipeline h

/-- A dispatcher begins with it. -/
theorem inv_init (h : (machine I V M ε).Init s) : Inv s := by
  obtain ⟨d, calls, log⟩ := s
  obtain ⟨⟨origin, pipeline, pipelines, router, limit, hd⟩, rfl, rfl⟩ := h
  have h0 : ∀ (n : ℕ) (r : List (Event I V) → M → Option String), Inv
      ({ dispatcher := { concurrentLimit := n, eventDispatchRouter := r } } : Sys I V M ε) :=
    fun n r => ⟨fun _ _ hp => (by cases hp), fun _ he => (by cases he), ⟨[], .nil, rfl⟩,
      fun _ he => (by cases he)⟩
  unfold EventDispatcher.create at hd
  rcases limit with _ | limit
  · exact (h0 _ _).addPipelines hd
  · dsimp only at hd
    rcases ha : assertNonNegativeInteger limit "eventDispatcherConfig.concurrentLimit" with
      error | _ <;> rw [ha] at hd
    · cases hd
    · exact (h0 _ _).addPipelines hd

/-- Each call of `dispatch` has pushed what it is to push to the pipeline that is to get it, in the
order of the calls, and nothing else is pushed. A pipeline's state is where what is done in it
leads from its start, whatever is done in the others, and so its batches are settled and published
as those of a pipeline alone. -/
structure Routed (s : Sys I V M ε) : Prop where
  goes : ∃ went, List.Forall₂ Goes s.calls went ∧ pushes s.log = went.reduceOption
  named : ∀ e ∈ s.log, s.dispatcher.pipelines e.1 ≠ none
  run : ∀ name p, s.dispatcher.pipelines name = some p →
    (DispatchPipeline.machine p.processors p.concurrentLimit).run {} (part name s.log) =
      some p.state
  pushed : ∀ name p, s.dispatcher.pipelines name = some p →
    p.state.pushed = (part name s.log).filterMap pushOf
  history : ∀ name p, s.dispatcher.pipelines name = some p → History p.processors p.state

theorem dispatches_routed (h : (machine I V M ε).ReachIf RejectsTruthy s) : Routed s := by
  have hi : Inv s := h.invariant (fun _ => inv_init) fun _ _ _ hi ha hst => hi.step ha hst
  refine ⟨hi.goes, hi.named, fun name p hp => (hi.pipelines name p hp).run,
    fun name p hp => run_pushed (hi.pipelines name p hp).run, fun name p hp => ?_⟩
  have halong : (DispatchPipeline.machine p.processors p.concurrentLimit).Along
      DispatchPipeline.RejectsTruthy {} (part name s.log) := by
    refine .of_forall fun a ha t => ?_
    have hr := hi.rejects _ (mem_part.1 ha)
    cases a with
    | answer k id answer => cases answer <;> exact hr
    | push data => trivial
    | start k => trivial
    | consume => trivial
    | revertReturned => trivial
  exact (DispatchPipeline.inv_of_reach
    ((Machine.ReachIf.init rfl).run halong (hi.pipelines name p hp).run)).1

section Runs

/-- A dispatcher with a pipeline for what is imported, which only passes it on. -/
def importing : EventDispatcher ℕ ℕ (Option String) String :=
  (EventDispatcher.create id none (some [("default", [⟨true⟩]), ("import", [])]) none
    (some 2)).toOption.get rfl

def created : List (Event ℕ ℕ) := [{ type := "created", payload := 1 }]

/-- What is imported is published, also while a batch of the other pipeline is refused and one is on
its way. No processor can be added any more. -/
theorem dispatches_routed_imported : ∃ s : Sys ℕ ℕ (Option String) String, Routed s
    ∧ pushes s.log = [("default", EventDispatcher.batch created none),
      ("import", EventDispatcher.batch created (some "import")),
      ("default", EventDispatcher.batch created (some "external"))]
    ∧ (s.dispatcher.pipelines "default").map (fun p => (p.processors, p.state.settled)) =
      some ([⟨true⟩], [(0, .error "refused")])
    ∧ (s.dispatcher.pipelines "import").map (fun p => (p.processors, p.state.settled)) =
      some ([], [(0, .ok created)]) := by
  have h0 : (machine ℕ ℕ (Option String) String).Init { dispatcher := importing } :=
    ⟨⟨id, none, some [("default", [⟨true⟩]), ("import", [])], none, some 2, rfl⟩, rfl, rfl⟩
  have hreach := (Machine.ReachIf.init (C := RejectsTruthy) h0).run (l := [.dispatch created none,
    .dispatch created (some "import"), .dispatch created (some "external"),
    .pipeline "default" (.start 0), .addPipelineProcessor ⟨false⟩ (some "import"),
    .pipeline "default" (.answer 0 0 (.error "refused")), .pipeline "import" .consume,
    .pipeline "default" .consume, .pipeline "default" .revertReturned])
    (Machine.Along.of_forall (by simp [RejectsTruthy, DispatchPipeline.RejectsTruthy, truthy])) rfl
  exact ⟨_, dispatches_routed hreach, rfl, rfl, rfl⟩

end Runs

end NodeCqrs.DispatchPipelines
