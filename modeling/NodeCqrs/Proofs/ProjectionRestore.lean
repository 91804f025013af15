import NodeCqrs.Proofs.Projection

/-!
# What a completed restore has handled

A restore that completes has handled all it read and leaves a safe checkpoint, if it is refused no
event in progress and found a safe checkpoint. When there are only restores the checkpoint is safe
(`restore_checkpoint`); with live events it is if they are recorded in their order
(`restore_complete`). A restart within the TTL passes over the event that was cut
(`restore_checkpoint_fails`), and an event that overtakes an earlier one in `project()` takes it
out of reach of every later restore (`restore_complete_fails`).
-/

namespace NodeCqrs

namespace Projection

variable {I V M K : Type} [DecidableEq K] {P : Projection I V M K}

/-- There are no `project()` calls. -/
def OnlyRestores : Action I V M → Prop
  | .project .. => False
  | _ => True

theorem project_calls (s : Sys I V M K) (event : Logged I V) (record : Bool)
    (awaiting : Projecting) : (P.project s event record awaiting).1.calls = s.calls := by
  cases awaiting with
  | markAsProjected =>
    simp only [project]
    split <;> rfl
  | _ => rfl

instance : ∀ a : Action I V M, Decidable (OnlyRestores a)
  | .project .. => inferInstanceAs (Decidable False)
  | .tick _ | .append _ | .restore .. | .next _ | .rejects _ | .returns _ | .crash _ =>
    inferInstanceAs (Decidable True)

/-- A live `project()` call. -/
def isProject : ProjectionCall I V M → Bool
  | .project .. => true
  | _ => false

/-- How much of the log the stream of a restore was read from. -/
def lengthRead : ProjectionCall I V M → Option ℕ
  | .restoring _ _ _ length => some length
  | _ => none

omit [DecidableEq K] in
theorem calls_set {s : Sys I V M K} {c p c' p' : ℕ} {call call' : ProjectionCall I V M}
    (h : (s.set c p call).calls c' = some (p', call')) :
    call' = call ∨ s.calls c' = some (p', call') := by
  by_cases hc : c' = c
  · simp only [Sys.set, hc, Function.update_self, Option.some.injEq, Prod.mk.injEq] at h
    exact .inl h.2.symm
  · simp only [Sys.set, Function.update_of_ne hc] at h
    exact .inr h

omit [DecidableEq K] in
theorem calls_clear {s : Sys I V M K} {c c' p' : ℕ} {call' : ProjectionCall I V M}
    (h : (s.clear c).calls c' = some (p', call')) : s.calls c' = some (p', call') := by
  by_cases hc : c' = c
  · simp [Sys.clear, hc] at h
  · simpa [Sys.clear, hc] using h

/-- A call goes on as what it is. -/
theorem next_calls {s s' : Sys I V M K} {c p : ℕ} {call : ProjectionCall I V M}
    (h : P.next s c p call = some s') {c' p' : ℕ} {call' : ProjectionCall I V M}
    (hc : s'.calls c' = some (p', call')) :
    s.calls c' = some (p', call') ∨ (isProject call' = true → isProject call = true) := by
  cases call with
  | project event metadata awaiting => exact .inr fun _ => rfl
  | getLastEvent =>
    simp only [next, Option.some.injEq] at h
    subst h
    exact (calls_set hc).symm.imp_right fun h => by simp [h, isProject]
  | getEventsByTypes lastEvent =>
    simp only [next] at h
    split at h <;> simp only [Option.some.injEq] at h <;> subst h
    · exact (calls_set hc).symm.imp_right fun h => by simp [h, isProject]
    · exact .inl (calls_clear hc)
  | restoring todo awaiting last length =>
    rcases todo with _ | ⟨event, todo⟩
    · simp [next] at h
    have hcalls := project_calls (P := P) s event (P.shouldRecordLastEvent event.1 none) awaiting
    simp only [next] at h
    split at h <;> rename_i heq <;> rw [heq] at hcalls <;>
      simp only [Option.some.injEq] at h <;> subst h
    · exact (calls_set hc).symm.imp (hcalls ▸ ·) fun h => by simp [h, isProject]
    · exact (calls_set hc).symm.imp (hcalls ▸ ·) fun h => by simp [h, isProject]
    · exact .inl (hcalls ▸ calls_clear hc)

/-- No `project()` call is under way. -/
def NoProject (s : Sys I V M K) : Prop :=
  ∀ c p call, s.calls c = some (p, call) → isProject call = false

omit [DecidableEq K] in
theorem noProject_init {s : Sys I V M K} (h : Init s) : NoProject s := by
  intro c p call hc
  simp [h.2.2.1] at hc

theorem noProject_step {s s' : Sys I V M K} {a : Action I V M} (hN : NoProject s)
    (hr : OnlyRestores a) (h : P.step s a = some s') : NoProject s' := by
  intro c p call hc
  cases a with
  | project c' p' i metadata => exact hr.elim
  | tick ms | append event =>
    obtain rfl := Option.some.inj h
    exact hN c p call hc
  | restore c' p' =>
    simp only [step] at h
    split_ifs at h
    obtain rfl := Option.some.inj h
    rcases calls_set hc with rfl | h₀
    · rfl
    · exact hN c p call h₀
  | next c' =>
    simp only [step, Option.bind_eq_some_iff] at h
    obtain ⟨⟨p', call'⟩, hc', h⟩ := h
    rcases next_calls h hc with h₀ | h₀
    · exact hN c p call h₀
    · simpa [hN c' p' call' hc'] using h₀
  | rejects c' =>
    simp only [step, Option.bind_eq_some_iff] at h
    obtain ⟨⟨p', call'⟩, hc', h⟩ := h
    simp only [] at h
    split_ifs at h
    obtain rfl := Option.some.inj h
    exact hN c p call (calls_clear hc)
  | returns c' =>
    simp only [step] at h
    split at h
    · obtain rfl := Option.some.inj h
      exact hN c p call (calls_clear hc)
    · simp at h
  | crash p' =>
    obtain rfl := Option.some.inj h
    simp only [Option.filter_eq_some_iff] at hc
    exact hN c p call hc.1

theorem inv_returns {s s' : Sys I V M K} {c : ℕ} (hI : Inv P s)
    (h : P.step s (.returns c) = some s') : Inv P s' :=
  inv_step (a := .returns c) hI ⟨trivial, trivial, trivial⟩ h

/-- When there are only restores, and none asks for an event in progress: whenever one completes,
the handler of each handled event up to the checkpoint has completed. -/
theorem restore_checkpoint {s s' : Sys I V M K} {c : ℕ} {event : Event I V}
    (hr : P.machine.ReachIf
      (fun s a => OnlyRestores a ∧ OwnId P s a ∧ Unobstructed P s a) s)
    (h : P.step s (.returns c) = some s') (he : s'.locker.getLastEvent = some event) :
    ∃ i, s'.log[i]? = some event ∧ P.CompletedBefore s' (i + 1) := by
  have hK : P.machine.ReachIf (Kept P) s := by
    refine hr.mono_of_invariant (P := NoProject) (fun _ => noProject_init)
      (fun _ _ _ hN hc h => noProject_step hN hc.1 h) fun s a hN hc => ⟨hc.2.1, hc.2.2, ?_⟩
    cases a with
    | next c =>
      intro event he
      obtain ⟨⟨p, call⟩, hp, hrec⟩ := Option.bind_eq_some_iff.1 he
      have := hN c p call hp
      cases call <;> simp_all [isProject, records]
    | _ => trivial
  exact (inv_returns (inv hK) h).shared.checkpoint event he

/-- When live events are recorded in the order of the log and no restore asks for an event in
progress: once a restore completes, the handler of each event of a handled type that was logged when
it read the log has completed. -/
theorem restore_complete {s s' : Sys I V M K} {c i length : ℕ} {event : Event I V}
    (hr : P.machine.ReachIf (fun s a => OwnId P s a ∧ Unobstructed P s a ∧ InOrder P s a) s)
    (hlen : (s.calls c).bind (lengthRead ·.2) = some length) (hi : i < length)
    (h : P.step s (.returns c) = some s') (he : s'.log[i]? = some event)
    (ht : event.type ∈ P.handles) : i ∈ s'.completed := by
  have hI := inv hr
  simp only [step] at h
  split at h
  · rename_i p awaiting last length' hc
    obtain rfl := Option.some.inj h
    obtain rfl : length' = length := by simpa [hc, lengthRead] using hlen
    exact (hI.calls c p _ hc).completedBefore i event hi he ht
  · simp at h

section Runs

/-- A projection of `changed` events, with ids as keys and the default TTL. -/
def changes : Projection String Unit Unit String :=
  { handles := ["changed"], getEventId := fun e => e.id.getD "" }

def change (id : String) : Event String Unit := { id := some id, type := "changed", payload := () }

theorem init_empty : changes.machine.Init {} := ⟨rfl, rfl, fun _ => rfl, rfl⟩

/-- A restore cut in its handler, and another up to its end. -/
def cutAndAgain (ms : ℕ) : List (Action String Unit Unit) :=
  [.append (change "1"), .restore 0 0, .next 0, .next 0, .next 0, .crash 0, .tick ms,
    .restore 1 1, .next 1, .next 1, .next 1]

/-- A restore is cut in its handler, and is run again when the TTL is over. -/
theorem restore_checkpoint_again : ∃ s' : Sys String Unit Unit String,
    s'.locker.getLastEvent = some (change "1")
      ∧ ∃ i, s'.log[i]? = some (change "1") ∧ changes.CompletedBefore s' (i + 1) := by
  obtain ⟨s, hs⟩ : ∃ s, changes.machine.run {} (cutAndAgain 15000 ++ [.next 1, .next 1, .next 1])
      = some s := ⟨_, rfl⟩
  have h := (Machine.ReachIf.init (C := fun s a => OnlyRestores a ∧ OwnId changes s a
    ∧ Unobstructed changes s a) init_empty).run (by decide) hs
  cases hs
  refine ⟨_, ?_, restore_checkpoint (c := 1) h rfl ?_⟩ <;> rfl

/-- A restore is cut in its handler and run again at once: it passes over the event, whose handler
never completes, and records it as the last one. -/
theorem restore_checkpoint_fails :
    ¬ ∀ (P : Projection String Unit Unit String) (s s' : Sys String Unit Unit String) (c : ℕ)
      (event : Event String Unit), P.machine.ReachIf (fun s a => OnlyRestores a ∧ OwnId P s a) s →
        P.step s (.returns c) = some s' → s'.locker.getLastEvent = some event →
          ∃ i, s'.log[i]? = some event ∧ P.CompletedBefore s' (i + 1) := by
  intro hall
  obtain ⟨s, hs⟩ : ∃ s, changes.machine.run {} (cutAndAgain 0) = some s := ⟨_, rfl⟩
  have h := (Machine.ReachIf.init (C := fun s a => OnlyRestores a ∧ OwnId changes s a)
    init_empty).run (by decide) hs
  cases hs
  obtain ⟨i, hi, hb⟩ := hall changes _ _ 1 (change "1") h rfl rfl
  have := hb i (change "1") (Nat.lt_succ_self i) hi (by decide)
  exact absurd this List.not_mem_nil

/-- Two live events, the second of them cut in its handler, and a restore after the TTL. -/
def overlap (firstDone : List (Action String Unit Unit)) : List (Action String Unit Unit) :=
  [.append (change "1"), .append (change "2"), .project 0 0 0 none, .project 1 0 1 none]
    ++ firstDone ++ [.crash 0, .tick 15000, .restore 2 1, .next 2, .next 2]

/-- The first event is recorded and the second is not; the restore handles it. -/
theorem restore_complete_second : ∃ s' : Sys String Unit Unit String,
    s'.log[1]? = some (change "2") ∧ 1 ∈ s'.completed := by
  obtain ⟨s, hs⟩ : ∃ s, changes.machine.run {}
      (overlap [.next 0, .next 1, .next 0, .next 0, .next 0]
      ++ [.next 2, .next 2, .next 2, .next 2]) = some s := ⟨_, rfl⟩
  have h := (Machine.ReachIf.init (C := fun s a => OwnId changes s a ∧ Unobstructed changes s a
    ∧ InOrder changes s a) init_empty).run (by decide) hs
  cases hs
  refine ⟨_, ?_, restore_complete (c := 2) h (show _ = some 2 by decide) (by decide) rfl
    (show _ = some (change "2") from ?_) (by decide)⟩ <;> rfl

/-- The second event is recorded while the first is in its handler, and the process crashes: a
restore after the TTL starts behind both. -/
theorem restore_complete_fails :
    ¬ ∀ (P : Projection String Unit Unit String) (s s' : Sys String Unit Unit String) (c i : ℕ)
      (event : Event String Unit),
        P.machine.ReachIf (fun s a => OwnId P s a ∧ Unobstructed P s a) s →
        (s.calls c).bind (lengthRead ·.2) = some s.log.length →
        P.step s (.returns c) = some s' → s'.log[i]? = some event → event.type ∈ P.handles →
          i ∈ s'.completed := by
  intro hall
  obtain ⟨s, hs⟩ : ∃ s, changes.machine.run {}
      (overlap [.next 0, .next 1, .next 1, .next 1, .next 1]) = some s := ⟨_, rfl⟩
  have h := (Machine.ReachIf.init (C := fun s a => OwnId changes s a ∧ Unobstructed changes s a)
    init_empty).run (by decide) hs
  cases hs
  exact absurd (hall changes _ _ 2 0 (change "1") h (by decide) rfl rfl (by decide)) (by decide)

end Runs

end Projection

end NodeCqrs
