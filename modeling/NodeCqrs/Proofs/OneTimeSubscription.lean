import NodeCqrs.Proofs.Delivery
import NodeCqrs.Utils.OneTimeSubscription

/-!
# One event, once

The listener is subscribed by no one else, and a type that has had a handler keeps its entry, so the
listener finds all its types when it unsubscribes (`unsubscribed_callEach`). It does so before it
calls its handler, which so is called once; if that throws, there is no `resolve` any more
(`completes_iff`).
-/

namespace NodeCqrs

open InMemoryMessageBus (Call)

variable {bus : LiveBus} {c : Call} {k q t : String} {h j : ℕ}

namespace LiveBus

/-- The set at a place, among those of a type, has the handler. -/
def Has (bus : LiveBus) (k : String) (j h : ℕ) : Prop :=
  ∃ set, (bus.sets k)[j]? = some set ∧ h ∈ set.toList

theorem mem_subscribed : h ∈ bus.subscribed k ↔ ∃ j, bus.Has k j h := by
  rw [subscribed, List.mem_flatMap]
  constructor
  · rintro ⟨set, hset, hmem⟩
    obtain ⟨j, hj⟩ := List.mem_iff_getElem?.1 hset
    exact ⟨j, set, hj, hmem⟩
  · rintro ⟨j, set, hset, hmem⟩
    exact ⟨set, List.mem_of_getElem? hset, hmem⟩

theorem Has.of_opened (hh : (bus.opened c).Has k j h) : bus.Has k j h := by
  obtain ⟨set, hset, hmem⟩ := hh
  rcases bus.sets_opened c k with hs | hs <;> rw [hs] at hset
  · exact ⟨set, hset, hmem⟩
  · rw [List.getElem?_append] at hset
    split_ifs at hset
    · exact ⟨set, hset, hmem⟩
    · obtain rfl := List.mem_singleton.1 (List.mem_of_getElem? hset)
      cases hmem

/-- A call leaves a handler where it was, adds it or removes it. -/
theorem Has.of_call (hh : (bus.call c).Has k j h) :
    bus.change c = some (.add k j h) ∨ bus.Has k j h ∧ bus.change c ≠ some (.delete k j h) := by
  obtain ⟨set, hset, hmem⟩ := hh
  rw [sets_call] at hset
  have hopened : ∀ set, ((bus.opened c).sets k)[j]? = some set → h ∈ set.toList → bus.Has k j h :=
    fun set hset hmem => .of_opened ⟨set, hset, hmem⟩
  rcases hchange : bus.change c with _ | ⟨t, loop, h'⟩ | ⟨t, loop, h'⟩ <;> rw [hchange] at hset
  · exact .inr ⟨hopened set hset hmem, by simp⟩
  all_goals
    simp only [SetChange.apply] at hset
    split_ifs at hset with hk
    case neg => exact .inr ⟨hopened set hset hmem, by rintro ⟨⟩ <;> exact hk rfl⟩
    rw [List.getElem?_modify] at hset
    split_ifs at hset with hj
    case neg => exact .inr ⟨hopened set (by simpa using hset) hmem, by rintro ⟨⟩ <;> exact hj rfl⟩
    obtain ⟨old, hold, rfl⟩ := Option.map_eq_some_iff.1 hset
  · rw [LiveSet.toList_add] at hmem
    by_cases hh : h = h'
    · exact .inl (by rw [hk, hj, hh])
    · refine .inr ⟨hopened old hold ?_, by simp⟩
      split_ifs at hmem
      · exact hmem
      · exact (List.mem_append.1 hmem).resolve_right (by simpa using hh)
  · rw [LiveSet.toList_delete] at hmem
    refine .inr ⟨hopened old hold (List.mem_of_mem_erase hmem), fun he => ?_⟩
    obtain ⟨-, -, rfl⟩ := SetChange.delete.inj (Option.some.inj he)
    exact (old.nodup_rest 0).not_mem_erase hmem

theorem handler_of_change (hchange : bus.change c = some (.add k j h)) : c.handler = some h := by
  cases c with
  | on t h' | queueOn q t h' =>
    obtain ⟨_, -, ⟨⟩⟩ := Option.map_eq_some_iff.1 hchange
    rfl
  | off t h' | queueOff q t h' => obtain ⟨_, -, ⟨⟩⟩ := Option.map_eq_some_iff.1 hchange
  | queue q => cases hchange

theorem queue_of_mem (hq : q ∈ bus.queues.map Prod.fst) : bus.queue q = bus := if_pos hq

theorem names_queue (bus : LiveBus) (q : String) :
    ∃ more, (bus.queue q).queues.map Prod.fst = bus.queues.map Prod.fst ++ more := by
  unfold queue
  split_ifs
  · exact ⟨[], by simp⟩
  · exact ⟨[q], by simp⟩

theorem names_updateQueue (bus : LiveBus) (q : String) (f : LiveHandlers → Option LiveHandlers) :
    (bus.updateQueue q f).queues.map Prod.fst = bus.queues.map Prod.fst := by
  refine List.ext_getElem? fun i => ?_
  simp only [updateQueue, List.getElem?_map, List.getElem?_modify]
  rcases bus.queues[i]? with _ | entry <;> split_ifs <;> rfl

/-- A queue, once there, stays where it is. -/
theorem names_call (bus : LiveBus) (c : Call) :
    ∃ more, (bus.call c).queues.map Prod.fst = bus.queues.map Prod.fst ++ more := by
  cases c with
  | on | off => exact ⟨[], (List.append_nil _).symm⟩
  | queue q => exact bus.names_queue q
  | queueOn q t h | queueOff q t h =>
    obtain ⟨more, hmore⟩ := bus.names_queue q
    exact ⟨more, by rw [call, names_updateQueue, hmore]⟩

theorem mem_names_call (hq : q ∈ bus.queues.map Prod.fst) :
    q ∈ (bus.call c).queues.map Prod.fst := by
  obtain ⟨more, hmore⟩ := bus.names_call c
  rw [hmore]
  exact List.mem_append_left _ hq

theorem place_call (hq : q ∈ bus.queues.map Prod.fst) : (bus.call c).place q = bus.place q := by
  obtain ⟨more, hmore⟩ := bus.names_call c
  rw [place, place, hmore, List.idxOf_append_of_mem hq]

end LiveBus

namespace LiveHandlers

variable {handlers handlers' : LiveHandlers} {u : Bool}

theorem keys_on (hon : handlers.on u t h = some handlers') :
    handlers.map Prod.fst ⊆ handlers'.map Prod.fst ∧ t ≠ "" ∧ t ∈ handlers'.map Prod.fst := by
  unfold on at hon
  split_ifs at hon with ht hin hu <;> obtain rfl := Option.some.inj hon
  · rw [Entries.keys_map (LiveSet.add · h)]
    exact ⟨List.Subset.refl _, ht, hin⟩
  · exact ⟨by simp, ht, by simp⟩

theorem keys_off (hoff : handlers.off t h = some handlers') :
    handlers'.map Prod.fst = handlers.map Prod.fst := by
  unfold off at hoff
  split_ifs at hoff
  obtain rfl := Option.some.inj hoff
  exact Entries.keys_map (LiveSet.delete · h) ..

theorem keys_getD_on (handlers : LiveHandlers) (u : Bool) (t : String) (h : ℕ) :
    handlers.map Prod.fst ⊆ ((handlers.on u t h).getD handlers).map Prod.fst := by
  rcases hon : handlers.on u t h with _ | handlers'
  · exact List.Subset.refl _
  · exact (keys_on hon).1

theorem keys_getD_off (handlers : LiveHandlers) (t : String) (h : ℕ) :
    handlers.map Prod.fst ⊆ ((handlers.off t h).getD handlers).map Prod.fst := by
  rcases hoff : handlers.off t h with _ | handlers'
  · exact List.Subset.refl _
  · rw [Option.getD_some, keys_off hoff]
    exact List.Subset.refl _

end LiveHandlers

namespace LiveBus

theorem place_lt (hq : q ∈ bus.queues.map Prod.fst) : bus.place q < bus.queues.length := by
  have hidx := List.idxOf_lt_length_iff.2 hq
  rwa [List.length_map] at hidx

theorem queueHandlers_queue (q' : String) (hq : q ∈ bus.queues.map Prod.fst) :
    (bus.queue q').queueHandlers q = bus.queueHandlers q := by
  unfold queue
  split_ifs
  · rfl
  · have hplace : place { bus with queues := bus.queues ++ [(q', [])] } q = bus.place q := by
      rw [place, place, List.map_append, List.idxOf_append_of_mem hq]
    rw [queueHandlers, queueHandlers, hplace, List.getElem?_append_left (place_lt hq)]

theorem place_updateQueue (bus : LiveBus) (q q' : String)
    (f : LiveHandlers → Option LiveHandlers) : (bus.updateQueue q' f).place q = bus.place q := by
  rw [place, place, names_updateQueue]

theorem queueHandlers_updateQueue_self (f : LiveHandlers → Option LiveHandlers)
    (hq : q ∈ bus.queues.map Prod.fst) : (bus.updateQueue q f).queueHandlers q
      = (f (bus.queueHandlers q)).getD (bus.queueHandlers q) := by
  rw [queueHandlers, queueHandlers, place_updateQueue, updateQueue, List.getElem?_modify,
    List.getElem?_eq_getElem (place_lt hq)]
  simp

theorem keys_queueHandlers_updateQueue (bus : LiveBus) (q q' : String)
    {f : LiveHandlers → Option LiveHandlers}
    (hf : ∀ handlers, handlers.map Prod.fst ⊆ ((f handlers).getD handlers).map Prod.fst) :
    (bus.queueHandlers q).map Prod.fst
      ⊆ ((bus.updateQueue q' f).queueHandlers q).map Prod.fst := by
  rw [queueHandlers, queueHandlers, place_updateQueue, updateQueue, List.getElem?_modify]
  rcases bus.queues[bus.place q]? with _ | entry
  · exact List.nil_subset _
  · split_ifs
    · exact hf entry.2
    · exact List.Subset.refl _

/-- A type that has had a handler on a queue keeps its entry. -/
theorem keys_queueHandlers_call (c : Call) (hq : q ∈ bus.queues.map Prod.fst) :
    (bus.queueHandlers q).map Prod.fst ⊆ ((bus.call c).queueHandlers q).map Prod.fst := by
  cases c with
  | on | off => exact List.Subset.refl _
  | queue q' =>
    rw [call, queueHandlers_queue q' hq]
    exact List.Subset.refl _
  | queueOn q' t h =>
    rw [← queueHandlers_queue q' hq, call]
    exact keys_queueHandlers_updateQueue _ _ _ fun handlers => LiveHandlers.keys_getD_on ..
  | queueOff q' t h =>
    rw [← queueHandlers_queue q' hq, call]
    exact keys_queueHandlers_updateQueue _ _ _ fun handlers => LiveHandlers.keys_getD_off ..

theorem handlers_queue (bus : LiveBus) (q : String) : (bus.queue q).handlers = bus.handlers := by
  unfold queue
  split_ifs <;> rfl

theorem keys_handlers_call (bus : LiveBus) (c : Call) :
    bus.handlers.map Prod.fst ⊆ (bus.call c).handlers.map Prod.fst := by
  cases c with
  | on t h => exact LiveHandlers.keys_getD_on ..
  | off t h => exact LiveHandlers.keys_getD_off ..
  | queue q | queueOn q | queueOff q =>
    simp only [call, updateQueue, handlers_queue]
    exact List.Subset.refl _

end LiveBus

namespace Emitter

variable {e : Emitter}

def Exists (bus : LiveBus) : Emitter → Prop
  | .bus => True
  | .queue q => q ∈ bus.queues.map Prod.fst

/-- The loop of `publish` that is over the sets of the emitter. -/
def place (bus : LiveBus) : Emitter → ℕ
  | .bus => 0
  | .queue q => bus.place q + 1

/-- The types that have had a handler. -/
def keys (bus : LiveBus) : Emitter → List String
  | .bus => bus.handlers.map Prod.fst
  | .queue q => (bus.queueHandlers q).map Prod.fst

theorem exists_call (he : e.Exists bus) (c : Call) : e.Exists (bus.call c) := by
  cases e with
  | bus => trivial
  | queue q => exact LiveBus.mem_names_call he

theorem place_call (he : e.Exists bus) (c : Call) : e.place (bus.call c) = e.place bus := by
  cases e with
  | bus => rfl
  | queue q => rw [place, place, LiveBus.place_call he]

theorem keys_call (he : e.Exists bus) (c : Call) : e.keys bus ⊆ e.keys (bus.call c) := by
  cases e with
  | bus => exact bus.keys_handlers_call c
  | queue q => exact LiveBus.keys_queueHandlers_call c he

theorem change_on (he : e.Exists bus) (hsome : (bus.change (e.on t h)).isSome) :
    bus.change (e.on t h) = some (.add t (e.place bus) h) ∧ t ≠ ""
      ∧ t ∈ e.keys (bus.call (e.on t h)) := by
  cases e with
  | bus =>
    simp only [Emitter.on, LiveBus.change, LiveBus.call, place, keys, Option.isSome_map]
      at hsome ⊢
    obtain ⟨handlers', hon⟩ := Option.isSome_iff_exists.1 hsome
    rw [hon]
    exact ⟨rfl, (LiveHandlers.keys_on hon).2⟩
  | queue q =>
    have hq := LiveBus.queue_of_mem he
    simp only [Emitter.on, LiveBus.change, LiveBus.call, place, keys, hq, Option.isSome_map]
      at hsome ⊢
    obtain ⟨handlers', hon⟩ := Option.isSome_iff_exists.1 hsome
    rw [LiveBus.queueHandlers_updateQueue_self _ he, hon]
    exact ⟨rfl, (LiveHandlers.keys_on hon).2⟩

theorem change_off (he : e.Exists bus) (ht : t ≠ "") (hkey : t ∈ e.keys bus) :
    bus.change (e.off t h) = some (.delete t (e.place bus) h) := by
  have hoff : ∀ {handlers : LiveHandlers}, t ∈ handlers.map Prod.fst →
      ∃ handlers', handlers.off t h = some handlers' := fun hkey =>
    ⟨_, if_neg (not_or.2 ⟨ht, not_not.2 hkey⟩)⟩
  cases e with
  | bus =>
    obtain ⟨handlers', hoff⟩ := hoff hkey
    rw [off, LiveBus.change, hoff]
    rfl
  | queue q =>
    obtain ⟨handlers', hoff⟩ := hoff hkey
    simp only [off, LiveBus.change, place, LiveBus.queue_of_mem he]
    rw [hoff]
    rfl

end Emitter

namespace OneTimeSubscription

variable {I V : Type} {o : OneTimeSubscription} {e : Emitter} {d : Delivery} {f : String → Call}
  {types : List String}

@[simp] theorem bus_make (d : Delivery) (c : Call) : (make d c).bus = d.bus.call c := rfl

@[simp] theorem active_make (d : Delivery) (c : Call) :
    (make d c).active.length = d.active.length := by
  simp only [make, Delivery.step, Option.getD_some]
  split
  · exact List.length_map _
  · rfl

theorem callEach_cons_pos (hsome : (d.bus.change (f t)).isSome) :
    callEach f d (t :: types) = ((callEach f (make d (f t)) types).1,
      t :: (callEach f (make d (f t)) types).2) := if_pos hsome

theorem callEach_cons_neg (hsome : ¬(d.bus.change (f t)).isSome) :
    callEach f d (t :: types) = (d, []) := if_neg hsome

theorem callEach_prefix : ∀ {l : List String} {d : Delivery},
    (callEach f d l).2 <+: l
  | [], _ => List.prefix_rfl
  | t :: l, d => by
    by_cases hsome : (d.bus.change (f t)).isSome
    · rw [callEach_cons_pos hsome]
      exact List.cons_prefix_cons.2 ⟨rfl, callEach_prefix⟩
    · rw [callEach_cons_neg hsome]
      exact List.nil_prefix

/-- The handler is subscribed to the emitter only, for some of the types `done`, and these keep
their entries. -/
structure Subscribed (e : Emitter) (h : ℕ) (bus : LiveBus) (done : List String) : Prop where
  exist : e.Exists bus
  key : ∀ t ∈ done, t ≠ "" ∧ t ∈ e.keys bus
  has : ∀ k j, bus.Has k j h → j = e.place bus ∧ k ∈ done

/-- No other call subscribes the handler. -/
theorem Subscribed.call {done : List String} (hsub : Subscribed e h bus done)
    (hc : c.handler ≠ some h) : Subscribed e h (bus.call c) done where
  exist := Emitter.exists_call hsub.exist c
  key t ht := ⟨(hsub.key t ht).1, Emitter.keys_call hsub.exist c (hsub.key t ht).2⟩
  has k j hh := by
    rw [Emitter.place_call hsub.exist]
    rcases hh.of_call with hchange | ⟨hh, -⟩
    · exact absurd (LiveBus.handler_of_change hchange) hc
    · exact hsub.has k j hh

theorem Subscribed.on {done : List String} (hsub : Subscribed e h bus done)
    (hsome : (bus.change (e.on t h)).isSome) :
    Subscribed e h (bus.call (e.on t h)) (done ++ [t]) := by
  obtain ⟨hchange, ht, hkey⟩ := Emitter.change_on hsub.exist hsome
  refine ⟨Emitter.exists_call hsub.exist _, fun t' ht' => ?_, fun k j hh => ?_⟩
  · rcases List.mem_append.1 ht' with ht' | ht'
    · exact ⟨(hsub.key t' ht').1, Emitter.keys_call hsub.exist _ (hsub.key t' ht').2⟩
    · obtain rfl := List.mem_singleton.1 ht'
      exact ⟨ht, hkey⟩
  · rw [Emitter.place_call hsub.exist]
    rcases hh.of_call with hadd | ⟨hh, -⟩
    · obtain ⟨rfl, rfl, -⟩ := SetChange.add.inj (Option.some.inj (hchange.symm.trans hadd))
      exact ⟨rfl, by simp⟩
    · exact (hsub.has k j hh).imp_right (List.mem_append_left _)

theorem subscribed_callEach_on : ∀ {l done : List String} {d : Delivery},
    Subscribed e h d.bus done →
      Subscribed e h (callEach (e.on · h) d l).1.bus (done ++ (callEach (e.on · h) d l).2)
  | [], done, d, hsub => by
    rw [callEach, List.append_nil]
    exact hsub
  | t :: l, done, d, hsub => by
    by_cases hsome : (d.bus.change (e.on t h)).isSome
    · rw [callEach_cons_pos hsome, List.append_cons]
      exact subscribed_callEach_on (hsub.on hsome)
    · rw [callEach_cons_neg hsome, List.append_nil]
      exact hsub

/-- A bus throws for no type. -/
theorem callEach_on_bus : ∀ {types : List String} {d : Delivery}, (∀ t ∈ types, t ≠ "") →
    (callEach (Emitter.bus.on · h) d types).2 = types
  | [], _, _ => rfl
  | t :: types, d, hne => by
    have hsome : (d.bus.change (Emitter.bus.on t h)).isSome := by
      simp only [Emitter.on, LiveBus.change, Option.isSome_map, LiveHandlers.on,
        if_neg (hne t (List.mem_cons_self ..)), Bool.false_eq_true, if_false]
      split_ifs <;> rfl
    rw [callEach_cons_pos hsome,
      callEach_on_bus fun t' ht' => hne t' (List.mem_cons_of_mem t ht')]

/-- After `off` for a type the handler is subscribed where it was, but for that type. -/
theorem has_of_off (he : e.Exists bus) (ht : t ≠ "") (hkey : t ∈ e.keys bus)
    (hh : (bus.call (e.off t h)).Has k j h) : bus.Has k j h ∧ ¬(j = e.place bus ∧ k = t) := by
  have hchange := Emitter.change_off (h := h) he ht hkey
  rcases hh.of_call with hadd | ⟨hh, hdelete⟩
  · cases hchange.symm.trans hadd
  · exact ⟨hh, by rintro ⟨rfl, rfl⟩; exact hdelete hchange⟩

theorem has_of_callEach_off : ∀ {types : List String} {d : Delivery},
    (callEach (e.off · h) d types).1.bus.Has k j h → d.bus.Has k j h
  | [], _, hh => hh
  | t :: types, d, hh => by
    by_cases hsome : (d.bus.change (e.off t h)).isSome
    · rw [callEach_cons_pos hsome] at hh
      rcases (has_of_callEach_off hh).of_call with hadd | ⟨hh, -⟩
      · cases e <;> obtain ⟨_, -, ⟨⟩⟩ := Option.map_eq_some_iff.1 hadd
      · exact hh
    · rwa [callEach_cons_neg hsome] at hh

/-- The listener finds each type it was subscribed to. -/
theorem unsubscribed_callEach {r : List String} : ∀ {l : List String} {d : Delivery},
    e.Exists d.bus → (∀ t ∈ l, t ≠ "" ∧ t ∈ e.keys d.bus) →
      l <+: (callEach (e.off · h) d (l ++ r)).2 ∧
      ∀ k j, (callEach (e.off · h) d (l ++ r)).1.bus.Has k j h →
        d.bus.Has k j h ∧ ¬(j = e.place d.bus ∧ k ∈ l)
  | [], _, _, _ => ⟨List.nil_prefix, fun _ _ hh => ⟨has_of_callEach_off hh, by simp⟩⟩
  | t :: l, d, he, hkeys => by
    obtain ⟨ht, hkey⟩ := hkeys t (List.mem_cons_self ..)
    have hsome : (d.bus.change (e.off t h)).isSome := by rw [Emitter.change_off he ht hkey]; rfl
    obtain ⟨hdone, hhas⟩ := unsubscribed_callEach (l := l)
      (d := make d (e.off t h)) (Emitter.exists_call he _) fun t' ht' =>
        have hkey' := hkeys t' (List.mem_cons_of_mem t ht')
        ⟨hkey'.1, Emitter.keys_call he _ hkey'.2⟩
    rw [List.cons_append, callEach_cons_pos hsome]
    refine ⟨List.cons_prefix_cons.2 ⟨rfl, hdone⟩, fun k j hh => ?_⟩
    obtain ⟨hh, hnot⟩ := hhas k j hh
    obtain ⟨hh, hnot'⟩ := has_of_off he ht hkey hh
    rw [bus_make, Emitter.place_call he] at hnot
    refine ⟨hh, fun hc => ?_⟩
    rcases List.mem_cons.1 hc.2 with hk | hk
    · exact hnot' ⟨hc.1, hk⟩
    · exact hnot ⟨hc.1, hk⟩

theorem active_callEach : ∀ {types : List String} {d : Delivery},
    (callEach f d types).1.active.length = d.active.length
  | [], _ => rfl
  | t :: types, d => by
    by_cases hsome : (d.bus.change (f t)).isSome
    · rw [callEach_cons_pos hsome, active_callEach, active_make]
    · rw [callEach_cons_neg hsome]

variable {s s' : Sys I V} {event : Event I V} {frames : List (Frame I V)}

/-- How often the handler of the subscription runs. -/
def handlers (frames : List (Frame I V)) : ℕ := frames.countP (·.running = .handler)

/-- The listener is subscribed until its filter returns true, and from then on it is not. While the
caller waits, its handler has not been called or runs. -/
structure Inv (o : OneTimeSubscription) (s : Sys I V) : Prop where
  subscribed : s.handled = false → ∃ done rest, o.messageTypes = done ++ rest ∧
    (s.promise ≠ .rejected → rest = []) ∧
    Subscribed o.emitter o.filteredHandler s.delivery.bus done
  unsubscribed : s.handled = true → ∀ k j, ¬s.delivery.bus.Has k j o.filteredHandler
  accepted : s.handled = true ↔ s.accepted ≠ []
  calledWith : s.calledWith = s.accepted.take 1 ∨ s.promise = .rejected ∧ s.calledWith = []
  rejected : s.promise = .rejected → o.emitter ≠ .bus
  length : s.frames.length = s.delivery.active.length
  running : handlers s.frames ≤ s.handled.toNat
  waiting : s.handled = true → s.promise.isPending = true → handlers s.frames = 1

theorem goOn_spec (d : Delivery) (d' : Delivering) (active : List Delivering) :
    (d.goOn d' active).bus = d.bus ∧ ((d.goOn d' active).active.length = active.length
      ∨ (d.goOn d' active).active.length = active.length + 1) := by
  unfold Delivery.goOn
  rcases LiveSet.seek (d.bus.sets d'.type) d'.loop d'.place with _ | ⟨h, loop, place⟩
  · exact ⟨rfl, .inl rfl⟩
  · exact ⟨rfl, .inr rfl⟩

theorem publish_spec (d : Delivery) (event : Event I V) : ∃ d', d.step (.publish event) = some d' ∧
    d'.bus = d.bus ∧ (d'.active.length = d.active.length
      ∨ d'.active.length = d.active.length + 1) := by
  refine ⟨_, rfl, ?_⟩
  split_ifs
  · exact goOn_spec ..
  · exact ⟨rfl, .inl rfl⟩

theorem deliver_spec (o : OneTimeSubscription) (s : Sys I V) (event : Event I V)
    (hlen : d.active.length = frames.length ∨ d.active.length = frames.length + 1) :
    ∃ fs, s.deliver o d event frames = { s with delivery := d, frames := fs } ∧
      fs.length = d.active.length ∧ handlers fs = handlers frames := by
  refine ⟨_, rfl, ?_, ?_⟩
  · split_ifs
    · omega
    all_goals
      rw [List.length_cons]
      omega
  · unfold handlers
    split_ifs
    · rfl
    · exact List.countP_cons_of_neg (by simp)
    · exact List.countP_cons_of_neg (by simp)

theorem Inv.move {fs : List (Frame I V)} (hi : o.Inv s) (hbus : d.bus = s.delivery.bus)
    (hlen : fs.length = d.active.length) (hle : handlers fs ≤ handlers s.frames)
    (hwait : s.promise.isPending = true → handlers fs = handlers s.frames) :
    o.Inv { s with delivery := d, frames := fs } where
  subscribed hh := by rw [hbus]; exact hi.subscribed hh
  unsubscribed hh := by rw [hbus]; exact hi.unsubscribed hh
  accepted := hi.accepted
  calledWith := hi.calledWith
  rejected := hi.rejected
  length := hlen
  running := Nat.le_trans hle hi.running
  waiting hh hp := (hwait hp).trans (hi.waiting hh hp)

/-- What runs returns or throws, and the bus goes on. -/
theorem returns_spec (hlen : s.frames.length = s.delivery.active.length)
    (hreturns : s.returns o = some s') : ∃ frame frames d fs, s.frames = frame :: frames ∧
      s' = { s with delivery := d, frames := fs } ∧ d.bus = s.delivery.bus ∧
      fs.length = d.active.length ∧ handlers fs = handlers frames := by
  unfold Sys.returns at hreturns
  rcases hframes : s.frames with _ | ⟨frame, frames⟩ <;> rw [hframes] at hreturns hlen
  · cases hreturns
  obtain ⟨d, hd, rfl⟩ := Option.map_eq_some_iff.1 hreturns
  rcases hactive : s.delivery.active with _ | ⟨d', active⟩ <;>
    simp only [Delivery.step, hactive] at hd
  · cases hd
  obtain rfl := Option.some.inj hd
  rw [hactive, List.length_cons, List.length_cons, Nat.add_right_cancel_iff] at hlen
  obtain ⟨hbus, hgoOn⟩ := goOn_spec s.delivery d' active
  rw [← hlen] at hgoOn
  obtain ⟨fs, hfs, hlen, hhandlers⟩ := deliver_spec o s frame.event hgoOn
  exact ⟨frame, frames, _, fs, rfl, hfs, hbus, hlen, hhandlers⟩

theorem Inv.returns {frame : Frame I V} (hi : o.Inv s) (hframes : s.frames = frame :: frames)
    (hhead : frame.running = .handler → s.promise.isPending = false)
    (hreturns : s.returns o = some s') : o.Inv s' := by
  obtain ⟨_, _, d, fs, hcons, rfl, hbus, hlen, hhandlers⟩ := returns_spec hi.length hreturns
  obtain ⟨rfl, rfl⟩ := List.cons.inj (hframes.symm.trans hcons)
  refine hi.move hbus hlen ?_ fun hp => ?_
  · rw [hhandlers, hframes]
    exact (List.sublist_cons_self frame frames).countP_le
  · have hrunning : frame.running ≠ .handler := fun hr => by simp [hhead hr] at hp
    rw [hhandlers, hframes]
    simp [handlers, hrunning]

theorem isPending_resolve (s : Sys I V) (event : Event I V) :
    (s.resolve event).promise.isPending = false := by
  unfold Sys.resolve
  rcases s.promise <;> rfl

theorem Inv.resolve (hi : o.Inv s) (event : Event I V) : o.Inv (s.resolve event) where
  subscribed hh := by
    obtain ⟨done, rest, hdone, hrest, hsub⟩ := hi.subscribed hh
    refine ⟨done, rest, hdone, fun hp => hrest fun he => hp ?_, hsub⟩
    rw [Sys.resolve, he]
    rfl
  unsubscribed := hi.unsubscribed
  accepted := hi.accepted
  calledWith := hi.calledWith.imp_right fun ⟨he, hc⟩ => ⟨by rw [Sys.resolve, he]; rfl, hc⟩
  rejected hp := by
    unfold Sys.resolve at hp
    rcases he : s.promise with _ | _ | _ <;> simp only [he] at hp
    · cases hp
    · cases hp
    · exact hi.rejected he
  length := hi.length
  running := hi.running
  waiting _ hp := by simp [isPending_resolve] at hp

/-- The filter has returned true. -/
theorem Inv.accept {frame : Frame I V} (hi : o.Inv s) (hframes : s.frames = frame :: frames)
    (hrunning : frame.running = .filter) (haccept : s.accept o event frames = some s') :
    o.Inv s' := by
  have hhead : frame.running = .handler → s.promise.isPending = false := fun hr => by
    cases hrunning.symm.trans hr
  unfold Sys.accept at haccept
  rcases hhandled : s.handled with _ | _ <;>
    simp only [hhandled, Bool.false_eq_true, if_false, if_true] at haccept
  · have hnil : s.accepted = [] := by
      by_contra hne
      cases hhandled.symm.trans (hi.accepted.2 hne)
    have hcalled : s.calledWith = [] := by
      rcases hi.calledWith with hc | ⟨-, hc⟩
      · rw [hc, hnil]
        rfl
      · exact hc
    have hzero : handlers s.frames = 0 := by
      have hle := hi.running
      rw [hhandled] at hle
      exact Nat.le_zero.1 hle
    obtain ⟨done, rest, hdone, hrest, hsub⟩ := hi.subscribed hhandled
    obtain ⟨hpre, hhas⟩ := unsubscribed_callEach (r := rest) hsub.exist hsub.key
    rw [← hdone] at hpre hhas
    have hnot : ∀ k j, ¬(callEach (o.emitter.off · o.filteredHandler) s.delivery
        o.messageTypes).1.bus.Has k j o.filteredHandler := fun k j hh =>
      (hhas k j hh).2 (hsub.has k j (hhas k j hh).1)
    split_ifs at haccept with hall
    · obtain rfl := Option.some.inj haccept
      have hone : handlers (⟨event, .handler⟩ :: frames) = 1 := by
        rw [hframes] at hzero
        simpa [handlers, hrunning] using hzero
      refine ⟨by simp, fun _ => hnot, by simp, .inl (by simp [hcalled, hnil]), hi.rejected, ?_,
        Nat.le_of_eq hone, fun _ _ => hone⟩
      rw [List.length_cons, active_callEach, ← hi.length, hframes, List.length_cons]
    · have hrejected : s.promise = .rejected := by
        by_contra hp
        rw [hrest hp, List.append_nil] at hdone
        rw [← hdone] at hpre
        exact hall (List.IsPrefix.eq_of_length_le callEach_prefix hpre.length_le)
      have hinv : o.Inv { s with
          accepted := s.accepted ++ [event]
          handled := true
          delivery := (callEach (o.emitter.off · o.filteredHandler) s.delivery
            o.messageTypes).1 } := by
        refine ⟨by simp, fun _ => hnot, by simp, .inr ⟨hrejected, hcalled⟩,
          hi.rejected, ?_, ?_, ?_⟩
        · rw [active_callEach, hi.length]
        · exact hzero ▸ Nat.zero_le _
        · simp [hrejected, Settled.isPending]
      exact hinv.returns hframes hhead haccept
  · have hinv : o.Inv { s with accepted := s.accepted ++ [event], handled := true } := by
      have hrunning := hi.running
      rw [hhandled] at hrunning
      refine ⟨by simp, fun _ => hi.unsubscribed hhandled, by simp, ?_, hi.rejected, hi.length,
        hrunning, fun _ => hi.waiting hhandled⟩
      refine hi.calledWith.imp_left fun hc => ?_
      rw [hc, List.take_append_of_le_length]
      exact List.length_pos_iff.2 (hi.accepted.1 hhandled)
    exact hinv.returns hframes hhead haccept

/-- The handler does not throw while the caller waits. -/
def Calm (s : Sys I V) : Action I V → Prop
  | .handler throws => throws = true → s.promise.isPending = false
  | .call _ | .publish _ | .returns | .filter _ => True

instance (s : Sys I V) : ∀ a : Action I V, Decidable (Calm s a)
  | .handler _ => inferInstanceAs (Decidable (_ → _))
  | .call _ | .publish _ | .returns | .filter _ => inferInstanceAs (Decidable True)

theorem inv_step {a : Action I V} (hi : o.Inv s) (hcalm : Calm s a) (hst : o.step s a = some s') :
    o.Inv s' := by
  cases a with
  | call c =>
    simp only [step] at hst
    split_ifs at hst with hc
    obtain rfl := Option.some.inj hst
    refine ⟨fun hh => ?_, fun hh k j hhas => ?_, hi.accepted, hi.calledWith, hi.rejected,
      ?_, hi.running, hi.waiting⟩
    · obtain ⟨done, rest, hdone, hrest, hsub⟩ := hi.subscribed hh
      exact ⟨done, rest, hdone, hrest, hsub.call hc⟩
    · rcases hhas.of_call with hadd | ⟨hhas, -⟩
      · exact hc (LiveBus.handler_of_change hadd)
      · exact hi.unsubscribed hh k j hhas
    · rw [active_make, hi.length]
  | publish event =>
    obtain ⟨d, hd, hbus, hlen⟩ := publish_spec s.delivery event
    simp only [step, hd, Option.map_some] at hst
    obtain rfl := Option.some.inj hst
    rw [← hi.length] at hlen
    obtain ⟨fs, hfs, hlen, hhandlers⟩ := deliver_spec o s event hlen
    rw [hfs]
    exact hi.move hbus hlen (Nat.le_of_eq hhandlers) fun _ => hhandlers
  | returns =>
    simp only [step] at hst
    split at hst
    · next event frames hframes => exact hi.returns hframes (by rintro ⟨⟩) hst
    · cases hst
  | filter result =>
    simp only [step] at hst
    split at hst
    · next event frames hframes =>
      split_ifs at hst
      · exact hi.accept hframes rfl hst
      · exact hi.returns hframes (by rintro ⟨⟩) hst
    · cases hst
  | handler throws =>
    simp only [step] at hst
    split at hst
    · next event frames hframes =>
      split_ifs at hst with hthrows
      · exact hi.returns hframes (fun _ => hcalm hthrows) hst
      · exact (hi.resolve event).returns hframes (fun _ => isPending_resolve s event) hst
    · cases hst

theorem inv_init (h0 : (o.machine I V).Init s) : o.Inv s := by
  obtain ⟨d, frames, hfresh, hsetup⟩ := h0
  unfold setup at hsetup
  split_ifs at hsetup with hempty
  obtain rfl := Option.some.inj hsetup
  have hnone : ∀ k j, ¬d.bus.Has k j o.filteredHandler := fun k j hh =>
    hfresh.subscribed k (LiveBus.mem_subscribed.2 ⟨j, hh⟩)
  have hexist : o.emitter.Exists d.bus := by
    rcases he : o.emitter with _ | q
    · trivial
    · exact hfresh.emitter q he
  have hzero : handlers frames = 0 := by
    rw [handlers, List.countP_eq_zero]
    intro frame hframe
    simp [hfresh.other frame hframe]
  have hsub := subscribed_callEach_on (l := o.messageTypes)
    (⟨hexist, by simp, fun k j hh => absurd hh (hnone k j)⟩ :
      Subscribed o.emitter o.filteredHandler d.bus [])
  rw [List.nil_append] at hsub
  obtain ⟨rest, hrest⟩ := callEach_prefix (f := (o.emitter.on · o.filteredHandler)) (d := d)
    (l := o.messageTypes)
  refine ⟨fun _ => ⟨_, rest, hrest.symm, fun hp => ?_, hsub⟩, by simp, by simp, .inl rfl,
    fun hp hbus => ?_, ?_, Nat.le_of_eq hzero, by simp⟩
  · dsimp only at hp
    split_ifs at hp with hall
    · rw [hall] at hrest
      exact List.append_right_eq_self.1 hrest
    · exact absurd rfl hp
  · dsimp only at hp
    rw [hbus, callEach_on_bus fun t ht he => hempty (.inr (he ▸ ht)), if_pos rfl] at hp
    cases hp
  · rw [active_callEach, hfresh.length]

/-- The handler is called once, with the first event that the filter accepts, and then there is no
subscription, and no waiting once the handler is done. It is not called only if the promise has been
rejected, where a queue could not subscribe to a type. -/
structure Completes (o : OneTimeSubscription) (s : Sys I V) : Prop where
  calledWith : s.calledWith = s.accepted.take 1 ∨ s.promise = .rejected ∧ s.calledWith = []
  rejected : s.promise = .rejected → o.emitter ≠ .bus
  unsubscribed : s.accepted ≠ [] → ∀ messageType,
    o.filteredHandler ∉ s.delivery.bus.subscribed messageType
  returns : s.frames ≠ [] → (s.returns o).isSome
  settled : s.accepted ≠ [] → (∀ frame ∈ s.frames, frame.running ≠ .handler) →
    s.promise.isPending = false

theorem handlers_eq_zero : handlers frames = 0 ↔ ∀ frame ∈ frames, frame.running ≠ .handler := by
  simp [handlers, List.countP_eq_zero]

theorem Inv.completes (hi : o.Inv s) : o.Completes s where
  calledWith := hi.calledWith
  rejected := hi.rejected
  unsubscribed hne t hmem := by
    obtain ⟨j, hh⟩ := LiveBus.mem_subscribed.1 hmem
    exact hi.unsubscribed (hi.accepted.2 hne) t j hh
  returns hne := by
    have hlen := hi.length
    unfold Sys.returns
    rcases hframes : s.frames with _ | ⟨frame, frames⟩
    · exact absurd hframes hne
    · rcases hactive : s.delivery.active with _ | ⟨d, active⟩
      · simp [hframes, hactive] at hlen
      · simp [Delivery.step, hactive]
  settled hne hno := by
    by_contra hp
    have hone := hi.waiting (hi.accepted.2 hne) (by simpa using hp)
    rw [handlers_eq_zero.2 hno] at hone
    cases hone

/-- The handler that throws is the one the caller waits for. -/
theorem calm_of_completes {a : Action I V} (hi : o.Inv s) (hst : o.step s a = some s')
    (hcompletes : o.Completes s') : Calm s a := by
  cases a with
  | call | publish | returns | filter => trivial
  | handler throws =>
    rintro rfl
    simp only [step, if_true] at hst
    split at hst
    · next event frames hframes =>
      obtain ⟨frame, frames', d, fs, hcons, rfl, -, -, hhandlers⟩ := returns_spec hi.length hst
      cases hframes.symm.trans hcons
      have hrunning := hi.running
      rw [hframes, handlers, List.countP_cons_of_pos (by simp)] at hrunning
      rcases hhandled : s.handled with _ | _ <;> rw [hhandled] at hrunning
      · cases hrunning
      have hzero : handlers fs = 0 :=
        hhandlers.trans (Nat.le_zero.1 (Nat.le_of_succ_le_succ hrunning))
      exact hcompletes.settled (hi.accepted.1 hhandled) (handlers_eq_zero.1 hzero)
    · cases hst

/-- A one-time subscription completes at each point of a run if and only if its handler throws at
none while the caller waits. -/
theorem completes_iff {l : List (Action I V)} (h0 : (o.machine I V).Init s)
    (h : (o.machine I V).run s l = some s') :
    (∀ l' t, l' <+: l → (o.machine I V).run s l' = some t → o.Completes t)
      ↔ (o.machine I V).Along Calm s l :=
  Machine.along_iff (M := o.machine I V) (fun _ hi => hi.completes)
    (fun _ _ _ hi hcalm hst => inv_step hi hcalm hst)
    (fun _ _ _ hi hst hcompletes => calm_of_completes hi hst hcompletes) (inv_init h0) h

section Runs

/-- To one type, and to another one twice. -/
def once : OneTimeSubscription where
  messageTypes := ["signup", "login", "signup"]
  filteredHandler := 1

def subscribed : Sys ℕ ℕ :=
  (once.setup { bus := {} } []).getD { delivery := { bus := {} } }

theorem init_subscribed : (once.machine ℕ ℕ).Init subscribed :=
  ⟨{ bus := {} }, [], ⟨by simp [once], fun _ => List.not_mem_nil, rfl, by simp⟩, rfl⟩

def signup : Event ℕ ℕ := { type := "signup", payload := 0 }

/-- The filter, called with an event, publishes another before it accepts both. -/
theorem completes_nested : ∃ s, (once.machine ℕ ℕ).run subscribed [.publish signup,
      .publish { signup with type := "login" }, .filter (some true), .handler false,
      .filter (some true), .publish signup] = some s
    ∧ s.calledWith = [{ signup with type := "login" }] ∧ once.Completes s := by
  have hrun : (once.machine ℕ ℕ).run subscribed [.publish signup,
      .publish { signup with type := "login" }, .filter (some true), .handler false,
      .filter (some true), .publish signup] = some _ := rfl
  exact ⟨_, hrun, rfl, (completes_iff init_subscribed hrun).2 (by decide) _ _ List.prefix_rfl hrun⟩

/-- The handler throws, and nothing is subscribed that could still resolve the promise. -/
theorem not_completes : ¬∀ (o : OneTimeSubscription) (s : Sys ℕ ℕ) (l : List (Action ℕ ℕ))
    (t : Sys ℕ ℕ), (o.machine ℕ ℕ).Init s → (o.machine ℕ ℕ).run s l = some t → o.Completes t := by
  intro hall
  obtain ⟨t, hrun, haccepted, hframes, hpromise⟩ : ∃ t, (once.machine ℕ ℕ).run subscribed
      [.publish signup, .filter (some true), .handler true] = some t ∧ t.accepted = [signup]
      ∧ t.frames = [] ∧ t.promise = .pending := ⟨_, rfl, rfl, rfl, rfl⟩
  have hsettled := (hall once subscribed _ t init_subscribed hrun).settled
    (by simp [haccepted]) (by simp [hframes])
  rw [hpromise] at hsettled
  cases hsettled

end Runs

end OneTimeSubscription

end NodeCqrs
