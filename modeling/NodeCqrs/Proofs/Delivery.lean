import NodeCqrs.InMemory.Delivery
import NodeCqrs.Proofs.Subscriptions

/-!
# Whom a `publish` calls

The loops are over what the sets have when they get there. So what a `publish` has called, and what
it would still call, are the handlers that were subscribed when it was called, and those added ahead
of it since, less those removed ahead of it (`Balanced`).
-/

namespace NodeCqrs

open InMemoryMessageBus (Call)

variable {t k : String} {h : ℕ} {u : Bool}

namespace LiveHandlers

variable {handlers handlers' : LiveHandlers}

theorem get_on (hon : handlers.on u t h = some handlers') (k : String) :
    handlers'.get k = if k = t then (handlers.get k).add h else handlers.get k := by
  have hmem := Entries.mem_keys (l := handlers) (k := t)
  unfold on at hon
  split_ifs at hon with ht hin hu <;> obtain rfl := Option.some.inj hon
  · obtain ⟨s, hl⟩ := hmem.1 hin
    rw [get, Entries.lookup_map fun s : LiveSet ℕ => s.add h]
    split_ifs with hk
    · rw [get, hk, hl, Option.map_some, Option.getD_some, Option.getD_some]
    · rfl
  · have hl := Entries.lookup_eq_none hin
    rw [get, get, Entries.lookup_concat hl]
    split_ifs with hk
    · rw [hk, hl, Option.getD_some, Option.getD_none]
    · rfl

theorem get_off (hoff : handlers.off t h = some handlers') (k : String) :
    handlers'.get k = if k = t then (handlers.get k).delete h else handlers.get k := by
  have hmem := Entries.mem_keys (l := handlers) (k := t)
  unfold off at hoff
  split_ifs at hoff with ht
  obtain rfl := Option.some.inj hoff
  obtain ⟨s, hl⟩ := hmem.1 (not_not.1 (not_or.1 ht).2)
  rw [get, Entries.lookup_map fun s : LiveSet ℕ => s.delete h]
  split_ifs with hk
  · rw [get, hk, hl, Option.map_some, Option.getD_some, Option.getD_some]
  · rfl

theorem map_fst_toHandlers : (toHandlers handlers).map Prod.fst = handlers.map Prod.fst := by
  simp [toHandlers]

/-- Without the places, `on` is that of the map of lists. -/
theorem toHandlers_on : (handlers.on u t h).map toHandlers = (toHandlers handlers).on u t h := by
  unfold on MessageHandlers.on
  rw [map_fst_toHandlers]
  split_ifs
  · rfl
  · rfl
  · simp only [Option.map_some, toHandlers, List.map_map, Option.some.injEq]
    refine List.map_congr_left fun entry _ => ?_
    by_cases ht : entry.1 = t <;> by_cases hh : h ∈ entry.2.toList <;>
      simp [ht, hh, LiveSet.toList_add]
  · simp [toHandlers, LiveSet.toList_add]

theorem toHandlers_off : (handlers.off t h).map toHandlers = (toHandlers handlers).off t h := by
  unfold off MessageHandlers.off
  rw [map_fst_toHandlers]
  split_ifs
  · rfl
  · simp only [Option.map_some, toHandlers, List.map_map, Option.some.injEq]
    refine List.map_congr_left fun entry _ => ?_
    by_cases ht : entry.1 = t <;> simp [ht, LiveSet.toList_delete]

end LiveHandlers

/-- What a change makes of the sets of a type. -/
def SetChange.apply (k : String) (sets : List (LiveSet ℕ)) : SetChange → List (LiveSet ℕ)
  | .add t loop h => if k = t then sets.modify loop (·.add h) else sets
  | .delete t loop h => if k = t then sets.modify loop (·.delete h) else sets

namespace LiveBus

variable {bus : LiveBus}

theorem map_modify_of {α β : Type} {g : α → β} {f : α → α} {f' : β → β} :
    ∀ {l : List α} {p : ℕ}, (∀ a, l[p]? = some a → g (f a) = f' (g a)) →
      (l.modify p f).map g = (l.map g).modify p f'
  | [], _, _ => by simp
  | a :: l, 0, h => by simp [h a rfl]
  | a :: l, p + 1, h => by
    rw [List.modify_succ_cons, List.map_cons, List.map_cons, List.modify_succ_cons,
      map_modify_of (l := l) fun a ha => h a ha]

theorem sets_queue (bus : LiveBus) (q k : String) :
    (bus.queue q).sets k = bus.sets k ∨ (bus.queue q).sets k = bus.sets k ++ [.empty] := by
  unfold queue
  split_ifs
  · exact .inl rfl
  · exact .inr (by simp [sets, LiveHandlers.get])

theorem sets_opened (bus : LiveBus) (c : Call) (k : String) :
    (bus.opened c).sets k = bus.sets k ∨ (bus.opened c).sets k = bus.sets k ++ [.empty] := by
  cases c with
  | on | off => exact .inl rfl
  | queue q | queueOn q | queueOff q => exact bus.sets_queue q k

/-- A queue's sets change as its `handlers` do. -/
theorem sets_updateQueue {q k : String} {f : LiveHandlers → Option LiveHandlers}
    {g : LiveSet ℕ → LiveSet ℕ}
    (hf : ((f (bus.queueHandlers q)).getD (bus.queueHandlers q)).get k
      = g ((bus.queueHandlers q).get k)) :
    (bus.updateQueue q f).sets k = (bus.sets k).modify (bus.place q + 1) g := by
  rw [sets, sets, List.modify_succ_cons]
  refine congrArg _ (map_modify_of fun entry hentry => ?_)
  have hq : bus.queueHandlers q = entry.2 := by rw [queueHandlers, hentry]; rfl
  rwa [hq] at hf

/-- All that a call does to the sets of a type. -/
theorem sets_call (bus : LiveBus) (c : Call) (k : String) : (bus.call c).sets k
    = match bus.change c with
      | some change => change.apply k ((bus.opened c).sets k)
      | none => (bus.opened c).sets k := by
  have hid : ∀ (l : List (LiveSet ℕ)) (p : ℕ), l.modify p id = l := fun l p => by simp
  cases c with
  | on t h =>
    rcases hon : bus.handlers.on false t h with _ | handlers'
    · simp [call, change, opened, hon]
    · have hget := LiveHandlers.get_on hon k
      simp only [call, change, opened, hon, Option.map_some, Option.getD_some, sets,
        SetChange.apply, hget]
      split_ifs <;> rfl
  | off t h =>
    rcases hoff : bus.handlers.off t h with _ | handlers'
    · simp [call, change, opened, hoff]
    · have hget := LiveHandlers.get_off hoff k
      simp only [call, change, opened, hoff, Option.map_some, Option.getD_some, sets,
        SetChange.apply, hget]
      split_ifs <;> rfl
  | queue q => rfl
  | queueOn q t h =>
    rcases hon : ((bus.queue q).queueHandlers q).on true t h with _ | handlers'
    · simp only [call, change, opened, hon, Option.map_none]
      rw [sets_updateQueue (g := id) (by rw [hon]; rfl), hid]
    · have hget := LiveHandlers.get_on hon k
      simp only [call, change, opened, hon, Option.map_some, SetChange.apply]
      split_ifs with hk
      · exact sets_updateQueue (by rw [hon, Option.getD_some, hget, if_pos hk])
      · rw [sets_updateQueue (g := id) (by rw [hon, Option.getD_some, hget, if_neg hk]; rfl), hid]
  | queueOff q t h =>
    rcases hoff : ((bus.queue q).queueHandlers q).off t h with _ | handlers'
    · simp only [call, change, opened, hoff, Option.map_none]
      rw [sets_updateQueue (g := id) (by rw [hoff]; rfl), hid]
    · have hget := LiveHandlers.get_off hoff k
      simp only [call, change, opened, hoff, Option.map_some, SetChange.apply]
      split_ifs with hk
      · exact sets_updateQueue (by rw [hoff, Option.getD_some, hget, if_pos hk])
      · rw [sets_updateQueue (g := id) (by rw [hoff, Option.getD_some, hget, if_neg hk]; rfl), hid]

end LiveBus

namespace Delivery

variable {I V : Type} {s s' : Delivery} {d : Delivering} {sets : String → List (LiveSet ℕ)}

/-- Those called, those that would still be, and those removed ahead of the loops are those that
were subscribed and those added ahead of the loops. -/
structure Balanced (sets : List (LiveSet ℕ)) (d : Delivering) : Prop where
  within : LiveSet.Within sets d.loop d.place
  perm : (d.called ++ LiveSet.left sets d.loop d.place ++ d.removed).Perm (d.audience ++ d.added)

theorem Balanced.concat {sets : List (LiveSet ℕ)} (hb : Balanced sets d) :
    Balanced (sets ++ [.empty]) d where
  within := LiveSet.within_concat hb.within _
  perm := by
    rw [LiveSet.left_concat_empty hb.within]
    exact hb.perm

@[simp] theorem note_type (sets : String → List (LiveSet ℕ)) (d : Delivering)
    (change : SetChange) : (note sets d change).type = d.type := by
  cases change <;> unfold note <;> dsimp only <;> split_ifs <;> rfl

theorem Balanced.note (hb : Balanced (sets d.type) d) (change : SetChange) :
    Balanced (change.apply d.type (sets d.type)) (note sets d change) := by
  have hmid : ∀ (called left removed : List ℕ) (h : ℕ),
      (called ++ (left ++ [h]) ++ removed).Perm (called ++ left ++ removed ++ [h]) := by
    intro called left removed h
    rw [← List.append_assoc, List.append_assoc (called ++ left), List.append_assoc (called ++ left)]
    exact List.perm_append_comm.append_left _
  cases change with
  | add t loop h =>
    by_cases ht : d.type = t
    · subst ht
      rcases hst : (sets d.type)[loop]? with _ | st
      · have hsame : (sets d.type).modify loop (·.add h) = sets d.type :=
          List.modify_eq_self (List.getElem?_eq_none_iff.1 hst)
        rw [SetChange.apply, if_pos rfl, hsame, Delivery.note, if_neg (by simp [hst])]
        exact hb
      · have hleft := LiveSet.left_add h hb.within hst
        rw [SetChange.apply, if_pos rfl, Delivery.note]
        by_cases hc : d.loop ≤ loop ∧ h ∉ st.toList
        · rw [if_pos ⟨rfl, hc.1, by simpa [hst] using hc.2⟩]
          rw [if_pos hc] at hleft
          refine ⟨LiveSet.within_modify _ (fun st => st.le_length_add h) hb.within, ?_⟩
          refine ((hleft.append_left _).append_right _).trans ((hmid ..).trans ?_)
          rw [← List.append_assoc]
          exact hb.perm.append_right _
        · rw [if_neg (by simpa [hst] using hc)]
          rw [if_neg hc, List.append_nil] at hleft
          refine ⟨LiveSet.within_modify _ (fun st => st.le_length_add h) hb.within, ?_⟩
          exact ((hleft.append_left _).append_right _).trans hb.perm
    · rw [SetChange.apply, if_neg ht, Delivery.note, if_neg (fun hc => ht hc.1.symm)]
      exact hb
  | delete t loop h =>
    by_cases ht : d.type = t
    · subst ht
      have hin := LiveSet.within_modify loop (fun st => Nat.le_of_eq (st.length_delete h).symm)
        hb.within
      have hleft := LiveSet.left_delete h (S := sets d.type) (k := d.loop) (i := d.place)
        (j := loop)
      rw [SetChange.apply, if_pos rfl, Delivery.note]
      by_cases hc : h ∈ LiveSet.ahead (sets d.type) d.loop d.place loop
      · rw [if_pos hc] at hleft
        rw [if_pos ⟨rfl, hc⟩]
        refine ⟨hin, ?_⟩
        rw [← List.append_assoc]
        exact (hmid ..).symm.trans (((hleft.symm.append_left _).append_right _).trans hb.perm)
      · rw [if_neg hc, List.append_nil] at hleft
        rw [if_neg (fun h => hc h.2)]
        exact ⟨hin, ((hleft.symm.append_left _).append_right _).trans hb.perm⟩
    · rw [SetChange.apply, if_neg ht, Delivery.note, if_neg (fun hc => ht hc.1.symm)]
      exact hb

structure Inv (s : Delivery) : Prop where
  active : ∀ d ∈ s.active, Balanced (s.bus.sets d.type) d
  finished : ∀ d ∈ s.finished, (d.called ++ d.removed).Perm (d.audience ++ d.added)

/-- The next handler is the first of those left. -/
theorem Inv.goOn {active : List Delivering} (hi : Inv { s with active })
    (hperm : (d.called ++ LiveSet.left (s.bus.sets d.type) d.loop d.place ++ d.removed).Perm
      (d.audience ++ d.added)) : Inv (s.goOn d active) := by
  unfold Delivery.goOn
  rcases hseek : LiveSet.seek (s.bus.sets d.type) d.loop d.place with _ | ⟨h, loop, place⟩
  · rw [LiveSet.left_of_seek_eq_none hseek, List.append_nil] at hperm
    refine ⟨hi.active, fun d' hd' => ?_⟩
    rcases List.mem_append.1 hd' with hd' | hd'
    · exact hi.finished d' hd'
    · exact List.mem_singleton.1 hd' ▸ hperm
  · obtain ⟨hleft, hin⟩ := LiveSet.left_of_seek_eq_some hseek
    refine ⟨fun d' hd' => ?_, hi.finished⟩
    rcases List.mem_cons.1 hd' with rfl | hd'
    · refine ⟨hin, ?_⟩
      rw [hleft, List.append_cons] at hperm
      exact hperm
    · exact hi.active d' hd'

theorem inv_step {a : Action I V} (hi : Inv s) (hst : s.step a = some s') : Inv s' := by
  cases a with
  | call c =>
    obtain rfl := Option.some.inj hst
    refine ⟨fun d' hd' => ?_, hi.finished⟩
    have hopened : ∀ d ∈ s.active, Balanced ((s.bus.opened c).sets d.type) d := fun d hd => by
      rcases s.bus.sets_opened c d.type with hs | hs <;> rw [hs]
      · exact hi.active d hd
      · exact (hi.active d hd).concat
    rw [LiveBus.sets_call]
    rcases hchange : s.bus.change c with _ | change
    · rw [hchange] at hd'
      exact hopened d' hd'
    · rw [hchange] at hd'
      obtain ⟨d, hd, rfl⟩ := List.mem_map.1 hd'
      rw [note_type]
      exact (hopened d hd).note change
  | publish event =>
    obtain rfl := Option.some.inj hst
    split_ifs
    · refine Inv.goOn hi ?_
      rw [LiveSet.left_zero_zero]
      simp [LiveBus.subscribed]
    · exact hi
  | returns =>
    simp only [step] at hst
    split at hst
    · cases hst
    · next d active hactive =>
      obtain rfl := Option.some.inj hst
      refine Inv.goOn ⟨fun d' hd' => hi.active d' ?_, hi.finished⟩ (hi.active d ?_).perm
      · exact hactive ▸ List.mem_cons_of_mem d hd'
      · exact hactive ▸ List.mem_cons_self ..

/-- A `publish` that has returned has called each of its audience once, and no one else, if and only
if those removed ahead of its loops are, each as often, those added ahead of them. One under way has
called no more handlers than were in its audience or added, and each handler that returns has it
return or call one more. -/
theorem delivers_iff {bus : LiveBus} {l : List (Action I V)}
    (h : (machine I V).run { bus } l = some s) :
    (∀ d ∈ s.finished, d.called.Perm d.audience ↔ d.removed.Perm d.added)
    ∧ (∀ d ∈ s.active, d.called.length ≤ d.audience.length + d.added.length)
    ∧ ∀ d active, s.active = d :: active → ∃ s', (machine I V).step s .returns = some s' ∧
      (s'.active = active ∧ s'.finished = s.finished ++ [d] ∨ ∃ h loop place,
        s'.active = { d with loop, place, called := d.called ++ [h] } :: active) := by
  have hi : Inv s := Machine.ReachIf.invariant (M := machine I V)
    (fun s h0 => ⟨by simp [h0.1], by simp [h0.2]⟩) (fun _ _ _ hi _ hst => inv_step hi hst)
    (Machine.reach_of_run ⟨rfl, rfl⟩ h)
  refine ⟨fun d hd => ⟨fun hp => ?_, fun hp => ?_⟩, fun d hd => ?_, fun d active hactive => ?_⟩
  · exact (List.perm_append_left_iff _).1 ((hp.append_right _).symm.trans (hi.finished d hd))
  · exact (List.perm_append_right_iff _).1 ((hi.finished d hd).trans (hp.symm.append_left _))
  · have hlen := (hi.active d hd).perm.length_eq
    simp only [List.length_append] at hlen
    omega
  · refine ⟨s.goOn d active, by simp [machine, step, hactive], ?_⟩
    unfold goOn
    rcases LiveSet.seek (s.bus.sets d.type) d.loop d.place with _ | ⟨h, loop, place⟩
    · exact .inl ⟨rfl, rfl⟩
    · exact .inr ⟨h, loop, place, rfl⟩

section Runs

/-- Two handlers of the bus, and one of a queue. -/
def threeHandlers : LiveBus where
  handlers := [("signup", (LiveSet.empty.add 0).add 1)]
  queues := [("emails", [("signup", LiveSet.empty.add 2)])]

def signup : Event ℕ ℕ := { type := "signup", payload := 0 }

/-- Handler 0 subscribes another to another type, and publishes. -/
theorem delivers_three : ∃ s, (machine ℕ ℕ).run { bus := threeHandlers }
      [.publish signup, .call (.on "login" 3), .publish { signup with type := "login" }, .returns,
        .returns, .returns, .returns] = some s
    ∧ s.finished.map (·.called) = [[3], [0, 1, 2]]
    ∧ ∀ d ∈ s.finished, d.called.Perm d.audience := by
  have hrun : (machine ℕ ℕ).run { bus := threeHandlers }
      [.publish signup, .call (.on "login" 3), .publish { signup with type := "login" }, .returns,
        .returns, .returns, .returns] = some _ := rfl
  exact ⟨_, hrun, by decide, fun d hd => ((delivers_iff hrun).1 d hd).2 (by revert d; decide)⟩

/-- The handler that is called subscribes another, which is called too. -/
theorem not_delivers_added : ¬ ∀ (bus : LiveBus) (l : List (Action ℕ ℕ)) (s : Delivery),
    (machine ℕ ℕ).run { bus } l = some s → ∀ d ∈ s.finished, d.called.Perm d.audience := by
  intro hall
  have hperm := hall { handlers := [("signup", LiveSet.empty.add 0)] }
    [.publish signup, .call (.on "signup" 1), .returns, .returns] _ rfl
  exact absurd hperm (by decide)

end Runs

end Delivery

end NodeCqrs
