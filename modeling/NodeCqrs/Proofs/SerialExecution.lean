import NodeCqrs.Proofs.AggregateStreams
import NodeCqrs.SerialExecution

/-!
# Command handlers execute serially

Whatever the order the calls of a system go on in, a serial execution of its committed commands, in
the order of their commits and with the same calls of their handlers, begins each of them in the
same state and has the same events (`serializable`). A call's batch is what its handler's methods
emit of the instance it works on (`Performs`), and when it is stored that instance and one made of
all stored events differ in nothing a method reads (`Alike`).
-/

namespace NodeCqrs

variable {I V σ : Type}

namespace AggregateType

variable [Truthy V] (T : AggregateType I V σ)

/-- Since `a₀` and `b₀`, `a` and `b` have emitted the same, and nothing a method reads differs. -/
structure Alike (a₀ b₀ a b : Aggregate I V σ) : Prop where
  id : a.id = b.id
  version : a.version = b.version
  state : a.state = b.state
  command : a.command = b.command
  changes : ∃ new, a.changes = a₀.changes ++ new ∧ b.changes = b₀.changes ++ new

/-- The state reacts to no events of types the class does not restore from. -/
def IgnoresUnrestored : Prop :=
  ∀ (state : σ) (event : Event I V), T.restores event = false →
    (T.mutateState state event).1 = state

variable {T} {a₀ b₀ a b : Aggregate I V σ}

omit [Truthy V] in
theorem Alike.makeEvent (h : Alike a₀ b₀ a b) (type : String) (payload : V) :
    a.makeEvent type payload = b.makeEvent type payload := by
  simp only [Aggregate.makeEvent, h.id, h.version, h.command]

theorem Alike.mutate (h : Alike a₀ b₀ a b) (event : Event I V) :
    Alike a₀ b₀ (T.mutate a event).1 (T.mutate b event).1
      ∧ (T.mutate a event).2 = (T.mutate b event).2 := by
  refine ⟨⟨h.id, ?_, ?_, h.command, h.changes⟩, ?_⟩ <;>
    simp only [AggregateType.mutate, h.version, h.state]

theorem Alike.emit (h : Alike a₀ b₀ a b) (type : String) (payload : V) :
    Alike a₀ b₀ (T.emit a type payload).1 (T.emit b type payload).1
      ∧ (T.emit a type payload).2 = (T.emit b type payload).2 := by
  simp only [AggregateType.emit]
  split_ifs
  · exact ⟨h, rfl⟩
  · obtain ⟨hm, hr⟩ := h.mutate (T := T) (a.makeEvent type payload)
    rw [← h.makeEvent]
    generalize T.mutate a (a.makeEvent type payload) = p at hm hr ⊢
    generalize T.mutate b (a.makeEvent type payload) = q at hm hr ⊢
    obtain ⟨a', r⟩ := p
    obtain ⟨b', r'⟩ := q
    obtain rfl : r = r' := hr
    cases r with
    | false => exact ⟨hm, rfl⟩
    | true =>
      obtain ⟨new, ha, hb⟩ := hm.changes
      refine ⟨⟨hm.id, hm.version, hm.state, hm.command, new ++ [a.makeEvent type payload], ?_, ?_⟩,
        rfl⟩
      · rw [← List.append_assoc, ← ha]
      · rw [← List.append_assoc, ← hb]

theorem Alike.takeSnapshot (h : Alike a₀ b₀ a b) :
    Alike a₀ b₀ (T.takeSnapshot a).1 (T.takeSnapshot b).1
      ∧ (T.takeSnapshot a).2 = (T.takeSnapshot b).2 := by
  simp only [AggregateType.takeSnapshot, ← h.state]
  rcases T.makeSnapshot a.state with _ | payload <;> dsimp only
  · exact ⟨h, rfl⟩
  · obtain ⟨he, hr⟩ := h.emit (T := T) SNAPSHOT_EVENT_TYPE payload
    generalize T.emit a SNAPSHOT_EVENT_TYPE payload = p at he hr ⊢
    generalize T.emit b SNAPSHOT_EVENT_TYPE payload = q at he hr ⊢
    obtain ⟨a', r⟩ := p
    obtain ⟨b', r'⟩ := q
    obtain rfl : r = r' := hr
    cases r with
    | false => exact ⟨he, rfl⟩
    | true => exact ⟨⟨he.id, he.version, he.state, he.command, he.changes⟩, rfl⟩

theorem Alike.callMethod (h : Alike a₀ b₀ a b) (method : Method V) :
    Alike a₀ b₀ (T.callMethod a method).1 (T.callMethod b method).1
      ∧ (T.callMethod a method).2 = (T.callMethod b method).2 := by
  cases method with
  | emit type payload => exact h.emit type payload
  | takeSnapshot => exact h.takeSnapshot

theorem Alike.callAll : ∀ {methods : List (Method V)} {a b a' : Aggregate I V σ},
    Alike a₀ b₀ a b → T.callAll a methods = some a' →
      ∃ b', T.callAll b methods = some b' ∧ Alike a₀ b₀ a' b'
  | [], a, b, a', h, ha => ⟨b, rfl, Option.some.inj ha ▸ h⟩
  | method :: methods, a, b, a', h, ha => by
    obtain ⟨hm, hr⟩ := h.callMethod (T := T) method
    simp only [AggregateType.callAll] at ha ⊢
    generalize T.callMethod a method = p at hm hr ha
    generalize T.callMethod b method = q at hm hr ⊢
    obtain ⟨a₁, r⟩ := p
    obtain ⟨b₁, r'⟩ := q
    obtain rfl : r = r' := hr
    cases r with
    | false => cases ha
    | true => exact hm.callAll ha

/-- What a command's events are does not depend on what was emitted before. -/
theorem perform_eq {cmd : Command I V} {methods : List (Method V)} {shouldTakeSnapshot : Bool}
    {events : List (Event I V)} (hid : a.id = b.id) (hv : a.version = b.version)
    (hs : a.state = b.state) (hc : a.command = b.command)
    (h : T.perform a cmd methods shouldTakeSnapshot = some events) :
    T.perform b cmd methods shouldTakeSnapshot = some events := by
  obtain ⟨⟨a₁, eventsOffset⟩, ha, hp⟩ := Option.bind_eq_some_iff.1 h
  obtain ⟨a₂, hm, hu⟩ := Option.bind_eq_some_iff.1 hp
  simp only [Aggregate.handle] at ha
  split at ha
  · cases ha
  rename_i hca
  cases ha
  have h₁ : Alike a b { a with command := some cmd } { b with command := some cmd } :=
    ⟨hid, hv, hs, rfl, [], by simp, by simp⟩
  obtain ⟨b₂, hb, h₂⟩ := h₁.callAll hm
  have h₃ : Alike a b (if shouldTakeSnapshot then T.takeSnapshot a₂ else (a₂, true)).1
      (if shouldTakeSnapshot then T.takeSnapshot b₂ else (b₂, true)).1
      ∧ (if shouldTakeSnapshot then T.takeSnapshot a₂ else (a₂, true)).2
        = (if shouldTakeSnapshot then T.takeSnapshot b₂ else (b₂, true)).2 := by
    split_ifs
    · exact h₂.takeSnapshot
    · exact ⟨h₂, rfl⟩
  simp only [perform, Aggregate.handle, ← hc, hca, Option.bind_some, hb]
  simp only [AggregateType.getUncommittedEvents] at hu ⊢
  generalize (if shouldTakeSnapshot then T.takeSnapshot a₂ else (a₂, true)) = p at hu h₃
  generalize (if shouldTakeSnapshot then T.takeSnapshot b₂ else (b₂, true)) = q at h₃ ⊢
  obtain ⟨a₃, r⟩ := p
  obtain ⟨b₃, r'⟩ := q
  obtain ⟨h₃, rfl⟩ : Alike a b a₃ b₃ ∧ r = r' := h₃
  cases r with
  | false => cases hu
  | true =>
    -- both have emitted the same since
    obtain ⟨new, hna, hnb⟩ := h₃.changes
    simp only [hna, List.drop_left, Option.some.injEq] at hu
    simp only [hnb, List.drop_left, hu]

/-- A class that ignores what it does not restore from restores enough of any events. -/
theorem IgnoresUnrestored.sufficient (h : T.IgnoresUnrestored) :
    ∀ (state : σ) (events : List (Event I V)), T.Sufficient state events
  | _, [] => trivial
  | state, event :: events => ⟨h state event, sufficient h _ events⟩

/-- The calls of a handler, one more. -/
theorem callAll_concat {method : Method V} : ∀ {methods : List (Method V)}
    {a a' a'' : Aggregate I V σ}, T.callAll a methods = some a' →
      T.callMethod a' method = (a'', true) → T.callAll a (methods ++ [method]) = some a''
  | [], a, a', a'', h, hm => by
    obtain rfl := Option.some.inj h
    simp [AggregateType.callAll, hm]
  | m :: methods, a, a', a'', h, hm => by
    simp only [List.cons_append, AggregateType.callAll] at h ⊢
    split at h
    · exact callAll_concat h hm
    · cases h

/-- Where no handler of the state throws, a new instance is restored. -/
theorem mutateAll_of_replays : ∀ {events : List (Event I V)} {a : Aggregate I V σ},
    T.Replays a.state events → ∃ a', T.mutateAll a events = some a'
  | [], a, _ => ⟨a, rfl⟩
  | event :: events, a, h => by
    obtain ⟨a', ha'⟩ := mutateAll_of_replays (a := (T.mutate a event).1) h.2
    have hr : (T.mutate a event).2 = true := h.1
    refine ⟨a', ?_⟩
    rw [mutateAll]
    generalize T.mutate a event = p at ha' hr ⊢
    obtain ⟨a₁, r⟩ := p
    obtain rfl : r = true := hr
    exact ha'

theorem mutateAll_version_of_numbered : ∀ {events : List (Event I V)} {a a' : Aggregate I V σ},
    Numbered (·.aggregateVersion) a.version events → T.mutateAll a events = some a' →
      a'.version = a.version + events.length
  | [], a, a', _, h => by
    obtain rfl := Option.some.inj h
    rfl
  | event :: events, a, a', hn, h => by
    have hev : event.aggregateVersion = some a.version := hn.1
    simp only [mutateAll] at h
    split at h
    · rename_i b hm
      have hb : b.version = a.version + 1 := by
        have h1 : (T.mutate a event).1 = b := by rw [hm]
        have h2 : (T.mutate a event).2 = true := by rw [hm]
        rw [← h1, mutate_version T a event h2, hev, Option.getD_some]
      rw [mutateAll_version_of_numbered (hb ▸ hn.2) h, hb, List.length_cons]
      omega
    · cases h

end AggregateType

/-- The instance is of the aggregate. -/
def Instance.isOf (id : I) : Instance I V σ → Prop
  | .restoring id' _ => id' = id
  | .ready aggregate _ => aggregate.id = id
  | .failed => True

namespace CommandHandlers

variable [DecidableEq I] [Truthy I] [Truthy V] (H : CommandHandlers I V σ)

/-- What a call works on is what its handler's methods made of the instance it started with, and
its batch what they emitted. -/
def CallPerforms (w : World I V σ) (call : Call I V σ) : Prop :=
  match call.phase with
  | .acquiring _ | .aggregate _ => True
  | .handler attempt emitThrew => (∀ id, aggregateId call = some id → attempt.start.id = id)
    ∧ attempt.start.command = none ∧ attempt.eventsOffset = attempt.start.changes.length
    ∧ ∃ aggregate applied, w.instances attempt.ref = some (.ready aggregate applied)
      ∧ (emitThrew = false →
        H.aggregateType.callAll { attempt.start with command := some call.cmd } attempt.methods =
          some aggregate)
  | .dispatch attempt events _ _ => (∀ id, aggregateId call = some id → attempt.start.id = id)
    ∧ attempt.start.command = none
    ∧ H.aggregateType.perform attempt.start call.cmd attempt.methods attempt.shouldTakeSnapshot =
      some events

structure Performs (s : Sys I V σ) : Prop where
  instances : ∀ r i h id, s.world.instances r = some i → r.owner = .cache h id → i.isOf id
  calls : ∀ c call, s.calls c = some call → CallPerforms H s.world call

/-- What a step of the call leaves: the other calls, the instances made before but the call's own,
and whose any of them is. -/
structure Leaves (s s' : Sys I V σ) (c : ℕ) : Prop where
  calls : ∀ x, x ≠ c → s'.calls x = s.calls x
  instances : ∀ r, r.serial < s.world.nextRef →
    (∀ call, s.calls c = some call → call.phase.ref ≠ some r) →
      s'.world.instances r = s.world.instances r
  isOf : ∀ r i h id, s'.world.instances r = some i → r.owner = .cache h id →
    (∀ i, s.world.instances r = some i → i.isOf id) → i.isOf id

variable {H} {s s' t : Sys I V σ} {c : ℕ} {call : Call I V σ}

omit [DecidableEq I] in
theorem CallPerforms.mono {w w' : World I V σ}
    (hr : ∀ r aggregate applied, call.phase.ref = some r →
      w.instances r = some (.ready aggregate applied) →
        w'.instances r = some (.ready aggregate applied))
    (h : CallPerforms H w call) : CallPerforms H w' call := by
  rcases hp : call.phase with awaits | ref | ⟨attempt, threw⟩ | ⟨attempt, events, flag, awaits⟩ <;>
    simp only [CallPerforms, hp] at h ⊢
  · obtain ⟨hid, hcmd, ho, aggregate, applied, hi, hm⟩ := h
    exact ⟨hid, hcmd, ho, aggregate, applied, hr _ _ _ (by simp [hp, Phase.ref]) hi, hm⟩
  · exact h

omit [DecidableEq I] in
theorem Performs.step (hP : Performs H s) (hS : Shape H s) (hl : Leaves s s' c)
    (hc : ∀ call, s'.calls c = some call → CallPerforms H s'.world call) : Performs H s' where
  instances r i h id hi ho := hl.isOf r i h id hi ho fun i hi => hP.instances r i h id hi ho
  calls x callx hx := by
    by_cases hxc : x = c
    · subst hxc
      exact hc callx hx
    · rw [hl.calls x hxc] at hx
      refine (hP.calls x callx hx).mono fun r aggregate applied hr hi => ?_
      rw [hl.instances r ((hS.calls x callx hx).ref r hr).2 fun call hcall hrc =>
        hS.ref_ne hx hcall hr hrc hxc rfl]
      exact hi

omit [DecidableEq I] [Truthy I] [Truthy V] in
/-- A step that makes no instances and writes to none. -/
theorem Leaves.of_instances (hi : s'.world.instances = s.world.instances)
    (hc : ∀ x, x ≠ c → s'.calls x = s.calls x) : Leaves s s' c where
  calls := hc
  instances r _ _ := by rw [hi]
  isOf r i h id hri _ hs := hs i (hi ▸ hri)

omit [DecidableEq I] [Truthy I] [Truthy V] in
theorem Leaves.trans (h : Leaves s t c) (hi : s'.world.instances = t.world.instances)
    (hc : ∀ x, x ≠ c → s'.calls x = t.calls x) : Leaves s s' c where
  calls x hx := (hc x hx).trans (h.calls x hx)
  instances r hr hn := hi ▸ h.instances r hr hn
  isOf r i h' id hri := h.isOf r i h' id (hi ▸ hri)

omit [DecidableEq I] [Truthy I] [Truthy V] in
theorem Leaves.goOn (h : Leaves s t c) (call : Call I V σ) (phase : Phase I V σ) :
    Leaves s (t.goOn c call phase) c :=
  h.trans rfl fun _ hx => Function.update_of_ne hx ..

omit [Truthy V] in
theorem finish_calls_of_ne (s : Sys I V σ) (call : Call I V σ) {x : ℕ} (hx : x ≠ c) :
    (H.finish s c call).calls x = s.calls x := by
  rw [finish_calls, Function.update_of_ne hx]

omit [Truthy V] in
theorem Leaves.finish (h : Leaves s t c) (call : Call I V σ) : Leaves s (H.finish t c call) c :=
  h.trans (by rw [finish_world]) fun _ hx => finish_calls_of_ne t call hx

omit [Truthy V] in
theorem Leaves.throwFrom (h : Leaves s t c) (call : Call I V σ) :
    Leaves s (H.throwFrom t c call) c :=
  h.trans (by rw [CommandHandlers.throwFrom, finish_world, resetCacheEntry_world]) fun _ hx => by
    rw [CommandHandlers.throwFrom, finish_calls_of_ne _ call hx, resetCacheEntry_calls]

omit [Truthy I] [Truthy V] in
/-- A call writes to its own instance, which stays the aggregate's. -/
theorem Leaves.write (hc : s.calls c = some call) {ref : Ref I} (hr : call.phase.ref = some ref)
    {aggregate aggregate' : Aggregate I V σ} {applied applied' : List (Event I V)}
    (hi : s.world.instances ref = some (.ready aggregate applied))
    (hid : aggregate'.id = aggregate.id) :
    Leaves s (s.setWorld (s.world.setInstance ref (.ready aggregate' applied'))) c where
  calls _ _ := rfl
  instances r _ hn := by
    have hne : r ≠ ref := fun h => hn call hc (h ▸ hr)
    simp [World.setInstance, hne]
  isOf r i h id hri _ hs := by
    by_cases hrr : r = ref
    · obtain rfl : _ = i := by simpa [World.setInstance, hrr] using hri
      have hof : (Instance.ready aggregate applied).isOf id := hs _ (hrr ▸ hi)
      exact hid.trans hof
    · exact hs i (by simpa [World.setInstance, hrr] using hri)

omit [Truthy I] [Truthy V] in
/-- An instance is made, for the call or for the cache. -/
theorem Leaves.make (s : Sys I V σ) (c : ℕ) (o : Owner I) (i : Instance I V σ)
    (ho : ∀ h id, o = .cache h id → i.isOf id) :
    Leaves s (s.setWorld (s.world.make o i).1) c where
  calls _ _ := rfl
  instances r hr _ := by
    have hne : r ≠ ⟨o, s.world.nextRef⟩ := fun h =>
      Nat.lt_irrefl s.world.nextRef (by rw [h] at hr; exact hr)
    simp [World.make, World.setInstance, hne]
  isOf r i' h id hri hro hs := by
    by_cases hrr : r = ⟨o, s.world.nextRef⟩
    · obtain rfl : i = i' := by simpa [World.make, World.setInstance, hrr] using hri
      exact ho h id (by rw [hrr] at hro; exact hro)
    · exact hs i' (by simpa [World.make, World.setInstance, hrr] using hri)

omit [Truthy I] [Truthy V] in
theorem Leaves.getCacheEntry (s : Sys I V σ) (c h : ℕ) (id : I) :
    Leaves s (CommandHandlers.getCacheEntry s h id).1 c := by
  rcases hf : (s.cache h).factories id with _ | f
  · rw [getCacheEntry_eq hf]
    exact .of_instances rfl fun _ _ => rfl
  · rw [getCacheEntry_of_factory hf]
    refine (Leaves.make s c (.cache h f) (.restoring f _) fun h' id' he => ?_).trans rfl
      fun _ _ => rfl
    cases he
    rfl

omit [Truthy V] in
theorem leaves_getAggregate (s : Sys I V σ) (c : ℕ) (call : Call I V σ) :
    Leaves s (H.getAggregate s c call) c ∧ ∃ ref,
      (H.getAggregate s c call).calls c = some { call with phase := .aggregate ref } := by
  rcases hid : aggregateId call with _ | id
  · simp only [getAggregate, hid]
    have hl := Leaves.make (s.setWorld (s.world.setEventStorage
      s.world.storages.eventStorage.getNewId.1)) c (.call c) (.ready (H.aggregateType.create
        (H.newId s.world.storages.eventStorage.getNewId.2)) []) (by simp)
    exact ⟨⟨fun x hx => Function.update_of_ne hx .., hl.instances, hl.isOf⟩, _,
      Sys.setCall_calls_self ..⟩
  · simp only [getAggregate, hid]
    refine ⟨(Leaves.getCacheEntry s c call.handler id).trans rfl fun x hx => ?_, _,
      Sys.setCall_calls_self ..⟩
    exact Function.update_of_ne hx ..

omit [Truthy V] in
theorem leaves_execute (s : Sys I V σ) (c h : ℕ) (cmd : Command I V) :
    Leaves s (H.execute s c h cmd) c ∧ ∀ call, (H.execute s c h cmd).calls c = some call →
      (∃ awaits, call.phase = .acquiring awaits) ∨ ∃ ref, call.phase = .aggregate ref := by
  simp only [CommandHandlers.execute]
  split
  · obtain ⟨hl, ref, hc⟩ := leaves_getAggregate (H := H) s c
      { handler := h, cmd, phase := .aggregate none }
    refine ⟨hl, fun call hcall => .inr ⟨ref, ?_⟩⟩
    obtain rfl := Option.some.inj (hc.symm.trans hcall)
    rfl
  · rename_i id hid
    refine ⟨?_, fun call hcall => .inl ?_⟩
    · refine Leaves.trans (t := allocateCacheEntry s h id) ?_ rfl fun x hx =>
        Function.update_of_ne hx ..
      rw [allocateCacheEntry_eq]
      have hl := Leaves.getCacheEntry (s.setCache h ((s.cache h).use id id)) c h id
      exact ⟨hl.calls, hl.instances, hl.isOf⟩
    · obtain rfl := Option.some.inj ((Sys.setCall_calls_self ..).symm.trans hcall)
      exact ⟨_, rfl⟩

omit [DecidableEq I] in
/-- A call that has no instance at work performs nothing. -/
theorem callPerforms_idle {w : World I V σ} (h : (∃ awaits, call.phase = .acquiring awaits)
    ∨ ∃ ref, call.phase = .aggregate ref) : CallPerforms H w call := by
  rcases h with ⟨awaits, hp⟩ | ⟨ref, hp⟩ <;> simp [CallPerforms, hp]

omit [DecidableEq I] in
/-- The instances a call has a hold of are of the aggregate its command names. -/
theorem Performs.isOf (hP : Performs H s) (hS : Shape H s) (hc : s.calls c = some call) {r : Ref I}
    (hr : call.phase.ref = some r) {i : Instance I V σ} (hi : s.world.instances r = some i) {id : I}
    (hid : aggregateId call = some id) : i.isOf id :=
  hP.instances r i call.handler id hi
    (((hS.calls c call hc).ref r hr).1.trans (owner_of_some hid))

omit [Truthy V] in
theorem Leaves.of_reset (h : Leaves (resetCacheEntry s call) t c) : Leaves s t c where
  calls x hx := (h.calls x hx).trans (by rw [resetCacheEntry_calls])
  instances r hr hn := by
    rw [h.instances r (by rwa [resetCacheEntry_world]) fun call hc => hn call (by simpa using hc),
      resetCacheEntry_world]
  isOf r i h' id hi ho hs := h.isOf r i h' id hi ho (by rwa [resetCacheEntry_world])

/-- An instance that was being restored is not one that a handler works on. -/
theorem Performs.setInstance (hP : Performs H s) {ref : Ref I} {id : I}
    {snapshot : Option (Event I V)} {i : Instance I V σ}
    (hi : s.world.instances ref = some (.restoring id snapshot)) (hof : i.isOf id) :
    Performs H (s.setWorld (s.world.setInstance ref i)) where
  instances r i' h id' hi' ho := by
    by_cases hrr : r = ref
    · obtain rfl : i = i' := by simpa [World.setInstance, hrr] using hi'
      have hid : (Instance.restoring id snapshot : Instance I V σ).isOf id' :=
        hP.instances r _ h id' (hrr ▸ hi) ho
      exact (show id = id' from hid) ▸ hof
    · exact hP.instances r i' h id' (by simpa [World.setInstance, hrr] using hi') ho
  calls x callx hx := (hP.calls x callx hx).mono fun r aggregate applied _ hready => by
    have hrr : r ≠ ref := by
      rintro rfl
      simp [hi] at hready
    simpa [World.setInstance, hrr] using hready

/-- A method of the handler's, one more. -/
theorem Performs.called (hP : Performs H s) (hS : Shape H s) {attempt : Attempt I V σ}
    {emitThrew returned : Bool} {aggregate aggregate' : Aggregate I V σ}
    {applied applied' : List (Event I V)} (method : Method V) (hc : s.calls c = some call)
    (hp : call.phase = .handler attempt emitThrew)
    (hi : s.world.instances attempt.ref = some (.ready aggregate applied))
    (ha : H.aggregateType.callMethod aggregate method = (aggregate', returned)) :
    Performs H ((s.setWorld (s.world.setInstance attempt.ref (.ready aggregate' applied'))).goOn c
      call (.handler { attempt with methods := attempt.methods ++ [method] }
        (emitThrew || !returned))) := by
  have hok := hP.calls c call hc
  simp only [CallPerforms, hp, hi, Option.some.injEq, Instance.ready.injEq] at hok
  obtain ⟨hid, hcmd, ho, _, _, ⟨rfl, rfl⟩, hm⟩ := hok
  have hid' : aggregate'.id = aggregate.id := by
    have h : (H.aggregateType.callMethod aggregate method).1.id = aggregate.id := by
      cases method with
      | emit type payload => exact AggregateType.emit_id ..
      | takeSnapshot => exact AggregateType.takeSnapshot_id ..
    rwa [ha] at h
  refine hP.step hS ((Leaves.write hc (by simp [hp, Phase.ref]) hi ?_).goOn call _)
    fun call' hcall => ?_
  · exact hid'
  obtain rfl := Option.some.inj ((Sys.setCall_calls_self ..).symm.trans hcall)
  refine ⟨hid, hcmd, ho, aggregate', applied', Function.update_self .., fun hthrew => ?_⟩
  simp only [Bool.or_eq_false_iff, Bool.not_eq_false'] at hthrew
  obtain ⟨hthrew, rfl⟩ := hthrew
  exact AggregateType.callAll_concat (hm hthrew) ha

/-- A handler's end: the batch is what its methods emitted. -/
theorem Performs.returned (hP : Performs H s) (hS : Shape H s) {attempt : Attempt I V σ} {b : Bool}
    {aggregate aggregate' : Aggregate I V σ} {applied applied' events : List (Event I V)}
    (hc : s.calls c = some call) (hp : call.phase = .handler attempt false)
    (hi : s.world.instances attempt.ref = some (.ready aggregate applied))
    (ha : H.aggregateType.getUncommittedEvents aggregate b attempt.eventsOffset =
      (aggregate', some events)) (awaits : Dispatching I V) :
    Performs H ((s.setWorld (s.world.setInstance attempt.ref
      (.ready { aggregate' with command := none } applied'))).goOn c call
        (.dispatch { attempt with shouldTakeSnapshot := b } events false awaits)) := by
  have hok := hP.calls c call hc
  simp only [CallPerforms, hp, hi, Option.some.injEq, Instance.ready.injEq] at hok
  obtain ⟨hid, hcmd, ho, _, _, ⟨rfl, rfl⟩, hm⟩ := hok
  have hid' : aggregate'.id = aggregate.id := by
    have h := AggregateType.getUncommittedEvents_id (T := H.aggregateType) aggregate b
      attempt.eventsOffset
    rwa [ha] at h
  refine hP.step hS ((Leaves.write hc (by simp [hp, Phase.ref]) hi ?_).goOn call _)
    fun call' hcall => ?_
  · exact hid'
  obtain rfl := Option.some.inj ((Sys.setCall_calls_self ..).symm.trans hcall)
  refine ⟨hid, hcmd, ?_⟩
  simp only [AggregateType.perform, Aggregate.handle, hcmd, Option.bind_some, hm trivial, ← ho, ha]

/-- Each step keeps what the calls perform. -/
theorem Effect.performs {a : Action I V} (hP : Performs H s) (hS : Shape H s) (hR : Regular s a)
    (h : Effect H s a s') : Performs H s' := by
  have hends : ∀ {t : Sys I V σ} {c : ℕ} {call : Call I V σ}, Leaves s t c →
      Performs H (H.finish t c call) ∧ Performs H (H.throwFrom t c call) := by
    intro t c call hl
    refine ⟨hP.step hS (hl.finish call) fun call' hcall => ?_,
      hP.step hS (hl.throwFrom call) fun call' hcall => ?_⟩
    · simp at hcall
    · simp [throwFrom] at hcall
  have hidle : ∀ {t : Sys I V σ} {c : ℕ} {call : Call I V σ} {ref : Option (Ref I)},
      Leaves s t c → t.calls c = some { call with phase := .aggregate ref } → Performs H t := by
    intro t c call ref hl hcall
    refine hP.step hS hl fun call' hcall' => callPerforms_idle (.inr ⟨ref, ?_⟩)
    obtain rfl := Option.some.inj (hcall.symm.trans hcall')
    rfl
  cases h with
  | execute _ =>
    obtain ⟨hl, hc⟩ := leaves_execute (H := H) s _ _ _
    exact hP.step hS hl fun call hcall => callPerforms_idle (hc call hcall)
  | acquire hc _ hp _ =>
    refine hP.step hS (Leaves.goOn ?_ _ _) fun call' hcall => ?_
    · exact .of_instances rfl fun _ _ => rfl
    obtain rfl := Option.some.inj ((Sys.setCall_calls_self ..).symm.trans hcall)
    exact callPerforms_idle (.inl ⟨_, rfl⟩)
  | lease hc hp =>
    obtain ⟨hl, ref, hcall⟩ := leaves_getAggregate (H := H) s _ _
    exact hidle hl hcall
  | restored hi ha => exact hP.setInstance hi (AggregateType.mutateAll_spec ha).1
  | failed hi => exact hP.setInstance hi trivial
  | notHandled hc _ => exact (hends (.of_instances rfl fun _ _ => rfl)).2
  | notRestored hc _ => exact (hends (.of_instances rfl fun _ _ => rfl)).1
  | @handled c call ref aggregate applied hc hp hi hcmd =>
    have hr : call.phase.ref = some ref := by simp [hp, Phase.ref]
    refine hP.step hS ((Leaves.write hc hr hi ?_).goOn call _) fun call' hcall => ?_
    · rfl
    obtain rfl := Option.some.inj ((Sys.setCall_calls_self ..).symm.trans hcall)
    exact ⟨fun id hid => hP.isOf hS hc hr hi hid, hcmd, rfl, _, _, Function.update_self ..,
      fun _ => rfl⟩
  | called hc hp hi _ hm => exact hP.called hS _ hc hp hi hm
  | threw hc hp hi hid =>
    exact (hends (Leaves.write hc (by simp [hp, Phase.ref]) hi hid)).2
  | returned hc hp hi ha hs =>
    rename_i attempt emitThrew b aggregate aggregate' applied events
    obtain rfl : emitThrew = false := by simpa [Regular, hc, hp, Phase.emitThrew] using hR
    rcases hs _ rfl with ⟨-, rfl⟩ | ⟨-, rfl⟩
    · refine (hends (Leaves.write hc (by simp [hp, Phase.ref]) hi ?_)).1
      have h := AggregateType.getUncommittedEvents_id (T := H.aggregateType) aggregate b
        attempt.eventsOffset
      rwa [ha] at h
    · exact hP.returned hS hc hp hi ha _
  | committed hc hp _ | dispatching hc hp _ =>
    have hok := hP.calls _ _ hc
    simp only [CallPerforms, hp] at hok
    refine hP.step hS (Leaves.goOn ?_ _ _) fun call' hcall => ?_
    · exact .of_instances rfl fun _ _ => rfl
    obtain rfl := Option.some.inj ((Sys.setCall_calls_self ..).symm.trans hcall)
    exact hok
  | dispatched hc _ _ => exact (hends (.of_instances rfl fun _ _ => rfl)).1
  | @settled c call _ _ _ _ _ hc hp hs =>
    rcases hs with ⟨-, rfl⟩ | ⟨-, rfl⟩ | ⟨rfl, -, -⟩
    · exact (hends (.of_instances (by simp) fun x _ => by simp)).1
    · obtain ⟨hl, ref, hcall⟩ := leaves_getAggregate (H := H) (resetCacheEntry s call) c
        { call with attempts := call.attempts + 1 }
      exact hidle hl.of_reset hcall
    · exact absurd rfl hR
  | append => exact absurd hR not_false

omit [DecidableEq I] in
theorem performs_init : Performs H ({} : Sys I V σ) where
  instances _ _ _ _ h := by cases h
  calls _ _ h := by cases h

theorem reach_performs {C : Sys I V σ → Action I V → Prop} (hC : ∀ s a, C s a → Regular s a)
    (h : H.machine.ReachIf C s) : Performs H s := by
  refine h.invariant_of_reach (P := Performs H) (fun s hs => ?_) fun s a s' hr hP hCs hst =>
    (step_effect hst).performs hP (reach_shape hr) (hC s a hCs)
  exact (show s = {} from hs) ▸ performs_init

/-- An execution that gets through is kept with what its instance was. -/
theorem serialStep_eq {l : List (Executed I V σ)} {e : Execution I V} {a : Aggregate I V σ}
    {events : List (Event I V)}
    (hid : (e.cmd.aggregateId.filter (truthy ·)).all (· = e.aggregateId) = true)
    (ha : H.aggregateType.mutateAll (H.aggregateType.create e.aggregateId)
      (stored (l.flatMap (·.events)) e.aggregateId) = some a)
    (hp : H.aggregateType.perform a e.cmd e.methods e.shouldTakeSnapshot = some events) :
    H.serialStep l e = some (l ++ [⟨e.cmd, a.version, a.state, events⟩]) := by
  rw [stored] at ha
  rw [serialStep, if_pos hid, ha, Option.bind_some, hp, Option.map_some]

/-- With nothing ahead of the event storage all of a batch gets there. If it is stored, nothing of
its aggregate was stored since its handler began. -/
theorem committed_start {stream : List (Event I V)} (hplain : Plain s) (hD : Data True H stream s)
    (hC : Covered stream s) {attempt : Attempt I V σ} {events : List (Event I V)} {flag : Bool}
    {processors : List Stage} {data data' : List (Envelope I V)}
    {eventStorage : InMemoryEventStorage I V} (hc : s.calls c = some call)
    (hp : call.phase = .dispatch attempt events flag
      (.processing (.inMemoryEventStorage :: processors) data))
    (hr : s.world.storages.eventStorage.process data = (eventStorage, .ok data')) :
    data = EventDispatcher.envelopes events false
      ∧ attempt.start.version = (stored s.log attempt.start.id).length
      ∧ H.aggregateType.Synced s.log attempt.start := by
  have hpending := hD.pending hc hp List.mem_cons_self
  obtain ⟨aggregate, he⟩ := hpending.emits
  have hall : data = EventDispatcher.envelopes events false :=
    hpending.rest_eq (by rw [← hp, ← ahead_of_calls hc, hplain.ahead])
  have hst := hplain.stored_eq hD hC attempt.start.id
  have hs : H.aggregateType.Synced s.log attempt.start := by
    obtain ⟨h1, h2⟩ := hpending.synced.synced trivial
    rw [hst] at h1 h2
    exact ⟨h1, h2⟩
  refine ⟨hall, ?_, hs⟩
  have hok : ¬ InMemoryEventStorage.Conflicts s.world.storages.eventStorage events false := by
    rw [← EventDispatcher.process_rejects, ← hall, hr]
    simp
  exact AggregateType.start_version (hst ▸ hD.numbered _) hs (he.emitted trivial)
    hpending.nonempty fun e hmem =>
      Option.not_isSome_iff_eq_none.1 fun h => hok ⟨rfl, e, hmem, h⟩

/-- A batch that is stored is the next of a serial execution. -/
theorem committed_serial {stream : List (Event I V)} (hplain : Plain s)
    (hD : Data True H stream s) (hC : Covered stream s) (hP : Performs H s)
    (hU : H.aggregateType.IgnoresUnrestored) {attempt : Attempt I V σ} {events : List (Event I V)}
    {flag : Bool} {processors : List Stage} {data data' : List (Envelope I V)}
    {eventStorage : InMemoryEventStorage I V} (hc : s.calls c = some call)
    (hp : call.phase = .dispatch attempt events flag
      (.processing (.inMemoryEventStorage :: processors) data))
    (hr : s.world.storages.eventStorage.process data = (eventStorage, .ok data'))
    {commit : Commit I V σ} (hcommit : commit = {
      handler := call.handler, cmd := call.cmd, attempt, emitted := events,
      events := data.filterMap (·.event) }) :
    H.serialStep (s.commits.map (·.executed)) commit.execution =
      some (s.commits.map (·.executed) ++ [commit.executed]) := by
  have hperf := hP.calls c call hc
  simp only [CallPerforms, hp] at hperf
  obtain ⟨hid, hcmd, hperf⟩ := hperf
  obtain ⟨rfl, hv, hs⟩ := committed_start hplain hD hC hc hp hr
  have hst := hplain.stored_eq hD hC attempt.start.id
  have hrep := hD.replays trivial attempt.start.id attempt.start.version
  have hstate := hs.state
  rw [hst] at hrep
  rw [hv, List.take_length] at hrep hstate
  -- an instance that all stored events are applied to is like the one the handler had
  have hsuf := hU.sufficient (H.aggregateType.state attempt.start.id)
    (stored s.log attempt.start.id)
  obtain ⟨a, ha⟩ := AggregateType.mutateAll_of_replays
    (a := H.aggregateType.create attempt.start.id) (hrep hsuf)
  obtain ⟨h1, -, h3, h4⟩ := AggregateType.mutateAll_spec ha
  have hva : attempt.start.version = a.version := by
    rw [hv, AggregateType.mutateAll_version_of_numbered
      (a := H.aggregateType.create attempt.start.id) (hst ▸ hD.numbered _) ha]
    exact (Nat.zero_add _).symm
  have hsa : attempt.start.state = a.state := (hstate hsuf).trans h4.symm
  have hpa := AggregateType.perform_eq (a := attempt.start) h1.symm hva hsa (hcmd.trans h3.symm)
    hperf
  have hlog : (s.commits.map (·.executed)).flatMap (·.events) = s.log := by
    rw [List.flatMap_map, hD.log]
    rfl
  subst hcommit
  rw [serialStep_eq (a := a) (l := s.commits.map (·.executed)) ?_ (hlog ▸ ha) hpa]
  · simp [Commit.executed, Commit.execution, hva, hsa]
  · rcases hcid : aggregateId call with _ | id
    · simp [Commit.execution, show call.cmd.aggregateId.filter (truthy ·) = none from hcid]
    · simp [Commit.execution, show call.cmd.aggregateId.filter (truthy ·) = some id from hcid,
        hid id hcid]

/-- A step stores no batch, or the next of a serial execution. -/
theorem Effect.serial {stream : List (Event I V)} {a : Action I V} (hplain : Plain s)
    (hD : Data True H stream s) (hC : Covered stream s) (hP : Performs H s)
    (hU : H.aggregateType.IgnoresUnrestored) (h : Effect H s a s') :
    s'.commits = s.commits ∨ ∃ commit, s'.commits = s.commits ++ [commit]
      ∧ H.serialStep (s.commits.map (·.executed)) commit.execution =
        some (s.commits.map (·.executed) ++ [commit.executed]) := by
  cases h with
  | committed hc hp hr => exact .inr ⟨_, rfl, committed_serial hplain hD hC hP hU hc hp hr rfl⟩
  | execute _ => exact .inl (by simp)
  | lease _ _ => exact .inl (by simp)
  | notHandled _ _ | notRestored _ _ | dispatched _ _ _ => exact .inl (by simp [throwFrom])
  | threw _ _ _ _ => exact .inl (by simp [throwFrom]; rfl)
  | returned _ _ _ _ hs =>
    rcases hs _ rfl with ⟨-, rfl⟩ | ⟨-, rfl⟩
    · exact .inl (by simp; rfl)
    · exact .inl rfl
  | settled _ _ hs =>
    rcases hs with ⟨-, rfl⟩ | ⟨-, rfl⟩ | ⟨-, -, rfl⟩ <;> exact .inl (by simp [Sys.goOn])
  | _ => exact .inl rfl

/-- Whatever the order the calls go on in, with whatever caches, locks, snapshots and retries: the
committed commands, executed one at a time in the order of their commits by instances all events
stored before were applied to, with the same calls of their handlers, begin in the same states and
have the same events, and these are what is stored. -/
theorem serializable (hE : H.pipeline.count .inMemoryEventStorage = 1)
    (hT : .inMemorySnapshotStorage ∈ H.pipeline → H.aggregateType.RestoresSnapshots)
    (hU : H.aggregateType.IgnoresUnrestored)
    (h : H.machine.ReachIf (fun s a => Regular s a ∧ SavesCommitted H s a) s) :
    H.serial.run [] (s.commits.map (·.execution)) = some (s.commits.map (·.executed))
      ∧ s.log = s.commits.flatMap (·.events) := by
  have hplain : ∀ {s}, H.machine.ReachIf (fun s a => Regular s a ∧ SavesCommitted H s a) s →
      Plain s ∧ ∃ stream, Data True H stream s ∧ Covered stream s := fun h =>
    reach_plain True hE hT (h.mono fun s a hC => ⟨hC.1.neverIgnores, fun _ => hC.1, hC.2⟩)
  obtain ⟨-, stream, hD, -⟩ := hplain h
  refine ⟨?_, hD.log⟩
  refine h.invariant_of_reach (P := fun s => H.serial.run [] (s.commits.map (·.execution)) =
    some (s.commits.map (·.executed))) (fun s hs => ?_) fun s a s' hr ih _ hst => ?_
  · exact (show s = {} from hs) ▸ rfl
  · obtain ⟨hp, stream, hD, hC⟩ := hplain hr
    rcases (step_effect hst).serial hp hD hC (reach_performs (fun _ _ h => h.1) hr) hU
      with he | ⟨commit, he, hnext⟩
    · rwa [he]
    · rw [he, List.map_append, List.map_append, Machine.run_append, ih, Option.bind_some]
      simp only [List.map_cons, List.map_nil, Machine.run_cons, Machine.run_nil]
      rw [show H.serial.step = H.serialStep from rfl, hnext, Option.bind_some]

/-- A handler adds a number and takes a snapshot, when another handler has committed first, and
starts anew. -/
def addRetried : List (Action String ℕ) :=
  [executeAddAt 0, .lease 0, .restore { owner := .cache 0 "a", serial := 0 }, .handle 0,
    .emit 0 "added" 5, .handlerReturns 0 true,
    executeAddAt 1, .lease 1, .restore { owner := .cache 1 "a", serial := 1 }, .handle 1,
    .emit 1 "added" 6, .handlerReturns 1 false, .process 1, .process 0, .process 0, .settle 0 .yes,
    .restore { owner := .cache 0 "a", serial := 2 }, .handle 0, .emit 0 "added" 5,
    .handlerReturns 0 true, .process 0]

theorem serializable_retried : ∃ s,
    (addingTo [.inMemoryEventStorage, .inMemorySnapshotStorage]).machine.run {} addRetried =
        some s
      ∧ s.commits.map (fun commit => (commit.attempt.start.state, commit.events.length)) =
        [(0, 1), (6, 2)]
      ∧ (addingTo [.inMemoryEventStorage, .inMemorySnapshotStorage]).serial.run []
          (s.commits.map (·.execution)) = some (s.commits.map (·.executed))
      ∧ s.log = s.commits.flatMap (·.events) := by
  obtain ⟨s, hs, hstates⟩ : ∃ s,
      (addingTo [.inMemoryEventStorage, .inMemorySnapshotStorage]).machine.run {} addRetried =
          some s
      ∧ s.commits.map (fun commit => (commit.attempt.start.state, commit.events.length)) =
        [(0, 1), (6, 2)] := ⟨_, rfl, rfl⟩
  have h := (Machine.ReachIf.init (C := fun s a => Regular s a
    ∧ SavesCommitted (addingTo [.inMemoryEventStorage, .inMemorySnapshotStorage]) s a) rfl).run
      (by decide) hs
  exact ⟨s, hs, hstates, serializable rfl (fun _ _ _ _ h => ⟨h.symm, h.symm⟩)
    (fun _ _ h => by cases h) h⟩

end CommandHandlers

end NodeCqrs
