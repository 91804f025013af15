import Mathlib.Tactic.Common
import NodeCqrs.InMemory.LiveEvents

/-!
# The order of live events

`unlock()` makes the view ready before the calls that awaited it go on, each in a microtask of its
own: a `project()` call made in between starts its handler at once. So the handlers are started in
the order of the calls as long as there is no such call (`started_in_order_iff`).
-/

namespace NodeCqrs

namespace LiveEvents

variable {handles : List String} {s s' : Sys}

/-- The calls among some waiters whose event has a handler. -/
def dueOf (handles : List String) (waiters : List Waiter) : List ℕ :=
  waiters.filterMap fun
    | .project call type => if type ∈ handles then some call else none
    | .lock => none

/-- The waiters that are to go on. -/
def woken (microtasks : List Microtask) : List Waiter :=
  microtasks.filterMap fun
    | .resume waiter => some waiter
    | .other => none

/-- The calls that have yet to start their handler: those that are to go on, and those that wait. -/
def due (handles : List String) (s : Sys) : List ℕ :=
  dueOf handles (woken s.microtasks) ++ dueOf handles s.waiting

@[simp] theorem dueOf_append (handles : List String) (waiters waiters' : List Waiter) :
    dueOf handles (waiters ++ waiters') = dueOf handles waiters ++ dueOf handles waiters' :=
  List.filterMap_append

@[simp] theorem dueOf_project (handles : List String) (c : ℕ) (type : String)
    (waiters : List Waiter) : dueOf handles (.project c type :: waiters)
      = (if type ∈ handles then [c] else []) ++ dueOf handles waiters := by
  unfold dueOf
  split_ifs <;> simp [*]

@[simp] theorem dueOf_nil (handles : List String) : dueOf handles [] = [] := rfl

@[simp] theorem dueOf_lock (handles : List String) (waiters : List Waiter) :
    dueOf handles (.lock :: waiters) = dueOf handles waiters := rfl

@[simp] theorem woken_append (microtasks microtasks' : List Microtask) :
    woken (microtasks ++ microtasks') = woken microtasks ++ woken microtasks' :=
  List.filterMap_append

@[simp] theorem woken_resume (waiters : List Waiter) : woken (waiters.map .resume) = waiters := by
  rw [woken, List.filterMap_map]
  exact List.filterMap_some

@[simp] theorem woken_cons (waiter : Waiter) (microtasks : List Microtask) :
    woken (.resume waiter :: microtasks) = waiter :: woken microtasks := rfl

/-- The handlers are started in the order of the calls: none before one of an earlier call. -/
def InOrder (s : Sys) : Prop := s.started <+: s.handled

/-- No `project()` call of an event with a handler is made while the view is unlocked and an earlier
one has yet to go on. -/
def Orderly (handles : List String) (s : Sys) : Action → Prop
  | .project type => type ∈ handles → s.locked ∨ dueOf handles (woken s.microtasks) = []
  | _ => True

instance (handles : List String) (s : Sys) : ∀ a, Decidable (Orderly handles s a)
  | .project _ => inferInstanceAs (Decidable (_ → _))
  | .restore | .unlock | .queueMicrotask | .microtask => inferInstanceAs (Decidable True)

/-- The calls with a handler are those that have started it, in order, and those that are due. -/
structure Inv (handles : List String) (s : Sys) : Prop where
  split : s.started ++ due handles s = s.handled
  unlocked : s.locked = false → s.waiting = []
  fresh : ∀ c ∈ s.handled, c < s.calls

theorem Inv.inOrder (hi : Inv handles s) : InOrder s := ⟨_, hi.split⟩

theorem fresh_project (hf : ∀ c ∈ s.handled, c < s.calls) (p : Prop) [Decidable p] :
    ∀ c ∈ (if p then s.handled ++ [s.calls] else s.handled), c < s.calls + 1 := by
  intro c hc
  split_ifs at hc
  · rcases List.mem_append.1 hc with hc | hc
    · exact Nat.lt_succ_of_lt (hf c hc)
    · exact List.mem_singleton.1 hc ▸ Nat.lt_succ_self _
  · exact Nat.lt_succ_of_lt (hf c hc)

theorem Inv.lock (hi : Inv handles s) : Inv handles (lock s) := by
  unfold LiveEvents.lock
  split_ifs with hl
  · refine ⟨?_, fun h => absurd h (by simp [hl]), hi.fresh⟩
    simpa [due] using hi.split
  · exact ⟨hi.split, fun _ => hi.unlocked (by simpa using hl), hi.fresh⟩

theorem Inv.project {type : String} (hi : Inv handles s)
    (hC : type ∈ handles → s.locked ∨ dueOf handles (woken s.microtasks) = []) :
    Inv handles (project handles s type) := by
  have hsplit : s.started ++ (dueOf handles (woken s.microtasks) ++ dueOf handles s.waiting)
    = s.handled := hi.split
  unfold LiveEvents.project
  by_cases hl : s.locked = true
  · rw [if_pos hl]
    refine ⟨?_, fun h => absurd h (by simp [hl]), fresh_project hi.fresh _⟩
    by_cases ht : type ∈ handles <;> simp [due, ht, ← hsplit]
  · rw [if_neg hl]
    have hnil : s.waiting = [] := hi.unlocked (by simpa using hl)
    unfold _project
    by_cases ht : type ∈ handles
    · have hdue := (hC ht).resolve_left hl
      rw [if_pos ht, if_pos ht]
      refine ⟨?_, fun _ => hnil, by simpa [ht] using fresh_project hi.fresh (type ∈ handles)⟩
      simp [due, hnil, hdue, ← hsplit]
    · rw [if_neg ht, if_neg ht]
      exact ⟨hsplit, fun _ => hnil, fun c hc => Nat.lt_succ_of_lt (hi.fresh c hc)⟩

/-- The first microtask has the first of the calls that are due. -/
theorem Inv.resume {waiter : Waiter} {microtasks : List Microtask} (hi : Inv handles s)
    (hm : s.microtasks = .resume waiter :: microtasks) :
    Inv handles (resume handles { s with microtasks } waiter) := by
  have hsplit : s.started ++ (dueOf handles (woken s.microtasks) ++ dueOf handles s.waiting)
    = s.handled := hi.split
  rw [hm, woken_cons] at hsplit
  cases waiter with
  | project c type =>
    rw [dueOf_project] at hsplit
    unfold LiveEvents.resume _project
    by_cases ht : type ∈ handles
    · simp only [if_pos ht] at hsplit ⊢
      exact ⟨by simpa [due] using hsplit, hi.unlocked, hi.fresh⟩
    · simp only [if_neg ht] at hsplit ⊢
      exact ⟨by simpa [due] using hsplit, hi.unlocked, hi.fresh⟩
  | lock =>
    rw [dueOf_lock] at hsplit
    exact Inv.lock ⟨hsplit, hi.unlocked, hi.fresh⟩

theorem inv_step {a : Action} (hi : Inv handles s) (hC : Orderly handles s a)
    (hst : step handles s a = some s') : Inv handles s' := by
  cases a with
  | project type =>
    obtain rfl := Option.some.inj hst
    exact hi.project hC
  | restore =>
    obtain rfl := Option.some.inj hst
    exact hi.lock
  | unlock =>
    obtain rfl := Option.some.inj hst
    unfold unlock
    split_ifs
    · exact ⟨by simpa [due] using hi.split, fun _ => rfl, hi.fresh⟩
    · exact hi
  | queueMicrotask =>
    obtain rfl := Option.some.inj hst
    exact ⟨by simpa [due, woken] using hi.split, hi.unlocked, hi.fresh⟩
  | microtask =>
    unfold step at hst
    rcases hm : s.microtasks with _ | ⟨waiter | _, microtasks⟩ <;> rw [hm] at hst <;>
      cases hst
    · exact hi.resume hm
    · exact ⟨by simpa [due, woken, hm] using hi.split, hi.unlocked, hi.fresh⟩

/-- A call that goes straight on before an earlier one that is due starts its handler first. -/
theorem orderly_of_inOrder {a : Action} (hi : Inv handles s) (hst : step handles s a = some s')
    (ho : InOrder s') : Orderly handles s a := by
  cases a with
  | project type =>
    intro ht
    by_contra hnot
    obtain ⟨hl, hdue⟩ := not_or.1 hnot
    obtain rfl := Option.some.inj hst
    have hsplit : s.started ++ (dueOf handles (woken s.microtasks) ++ dueOf handles s.waiting)
      = s.handled := hi.split
    obtain ⟨c, due', hcons⟩ := List.exists_cons_of_ne_nil hdue
    have hc : c < s.calls := hi.fresh c (by simp [← hsplit, hcons])
    unfold InOrder project at ho
    simp only [if_neg hl, _project, if_pos ht, ← hsplit, hcons, List.append_assoc,
      List.cons_append, List.prefix_append_right_inj, List.cons_prefix_cons] at ho
    omega
  | restore | unlock | queueMicrotask | microtask => trivial

/-- All along a run the handlers are started in the order of the `project()` calls, if and only if
none of these calls, for an event with a handler, is made while the view is unlocked and an earlier
one has yet to go on. -/
theorem started_in_order_iff {l : List Action} (h : (machine handles).run {} l = some s) :
    (∀ l' t, l' <+: l → (machine handles).run {} l' = some t → t.started <+: t.handled)
      ↔ (machine handles).Along (Orderly handles) {} l :=
  Machine.along_iff (P := InOrder) (fun _ hi => hi.inOrder)
    (fun _ _ _ hi hC hst => inv_step hi hC hst)
    (fun _ _ _ hi hst ho => orderly_of_inOrder hi hst ho) ⟨rfl, fun _ => rfl, by simp⟩ h

section Runs

/-- Two calls that await the view, and one that is made once they have gone on. -/
theorem started_in_order_three : ∃ s, (machine ["signup", "login"]).run {}
      [.restore, .project "signup", .project "login", .unlock, .microtask, .microtask,
        .project "signup"] = some s
    ∧ s.started = [0, 1, 2]
    ∧ ∀ l' t, l' <+: [Action.restore, .project "signup", .project "login", .unlock, .microtask,
        .microtask, .project "signup"] →
      (machine ["signup", "login"]).run {} l' = some t → t.started <+: t.handled := by
  have hrun : (machine ["signup", "login"]).run {} [.restore, .project "signup", .project "login",
    .unlock, .microtask, .microtask, .project "signup"] = some _ := rfl
  exact ⟨_, hrun, rfl, (started_in_order_iff hrun).2 (by decide)⟩

/-- A microtask that was queued before the view is unlocked runs before the call that waits goes
on. -/
theorem not_started_in_order : ¬ ∀ l s, (machine ["signup"]).run {} l = some s →
    s.started <+: s.handled := by
  intro hall
  have hin := hall [.restore, .project "signup", .queueMicrotask, .unlock, .microtask,
    .project "signup", .microtask] { started := [1, 0], calls := 2, handled := [0, 1] } rfl
  exact absurd hin (by decide)

end Runs

end LiveEvents

end NodeCqrs
