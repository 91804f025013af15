import NodeCqrs.InMemory.Commits

/-!
# Unique versions

A call compares each event of its batch with what is stored and none with the rest of the batch. So
the stored versions stay unique as long as a batch in which a version is twice also has one that is
stored (`versions_unique_iff`).
-/

namespace NodeCqrs

namespace InMemoryEventStorage

variable {I V : Type} [DecidableEq I]

/-- Both events carry an aggregate's id and version, and they are the same. -/
def SamePair (e e' : Event I V) : Prop :=
  e.aggregateId.isSome ∧ e.aggregateVersion.isSome ∧ sameVersion e e'

instance (e e' : Event I V) : Decidable (SamePair e e') :=
  inferInstanceAs (Decidable (_ ∧ _ ∧ _))

/-- No two of the events have the same pair. -/
def Unique (events : List (Event I V)) : Prop := events.Pairwise fun e e' => ¬ SamePair e e'

instance (events : List (Event I V)) : Decidable (Unique events) :=
  inferInstanceAs (Decidable (events.Pairwise _))

variable {log events : List (Event I V)}

theorem SamePair.symm {e e' : Event I V} (h : SamePair e e') : SamePair e' e := by
  obtain ⟨hid, hv, h⟩ := h
  simp only [sameVersion, Bool.and_eq_true, decide_eq_true_eq] at h
  exact ⟨h.1 ▸ hid, h.2 ▸ hv, by simp [sameVersion, h.1, h.2]⟩

theorem conflict_isSome_iff {e : Event I V} :
    (conflict log e).isSome ↔ ∃ e' ∈ log, SamePair e' e := by
  unfold conflict
  split
  · rename_i aggregateId aggregateVersion hid hv
    simp only [List.any_eq_true]
    have hiff : ∀ e', sameVersion e' e = true ↔ SamePair e' e := by
      refine fun e' => ⟨fun h => ?_, fun h => h.2.2⟩
      have heq := h
      simp only [sameVersion, Bool.and_eq_true, decide_eq_true_eq] at heq
      exact ⟨by simp [heq.1, hid], by simp [heq.2, hv], h⟩
    simp only [hiff]
    split_ifs with h
    · simpa using h
    · simpa using h
  · rename_i hne
    simp only [Option.isSome_none, Bool.false_eq_true, false_iff, not_exists, not_and]
    intro e' _ h
    obtain ⟨hid, hv, -⟩ := h.symm
    obtain ⟨aggregateId, hid⟩ := Option.isSome_iff_exists.1 hid
    obtain ⟨aggregateVersion, hv⟩ := Option.isSome_iff_exists.1 hv
    exact hne _ _ hid hv

theorem conflict_error {e : Event I V} {error : DispatchError I}
    (h : conflict log e = some error) : ∃ v id, error = .concurrencyError v id := by
  unfold conflict at h
  split at h
  · split_ifs at h
    exact ⟨_, _, (Option.some.inj h).symm⟩
  · cases h

/-- What a call does: it throws for a version that is stored, or appends the batch. -/
theorem commitEvents_cases (s : InMemoryEventStorage I V) (events : List (Event I V)) :
    (∃ v id, s.commitEvents events false = .error (.concurrencyError v id)
      ∧ ∃ e ∈ events, ∃ e' ∈ s.events, SamePair e' e)
    ∨ (s.commitEvents events false = .ok { s with events := s.events ++ events }
      ∧ ∀ e ∈ events, ∀ e' ∈ s.events, ¬ SamePair e' e) := by
  simp only [commitEvents, Bool.false_eq_true, if_false]
  rcases hf : events.findSome? (conflict s.events) with _ | error
  · refine .inr ⟨rfl, fun e he e' he' h => ?_⟩
    have hnone := List.findSome?_eq_none_iff.1 hf e he
    have hsome := conflict_isSome_iff.2 ⟨e', he', h⟩
    rw [hnone] at hsome
    cases hsome
  · obtain ⟨e, he, hc⟩ := List.exists_of_findSome?_eq_some hf
    obtain ⟨v, id, rfl⟩ := conflict_error hc
    exact .inl ⟨v, id, rfl, e, he, conflict_isSome_iff.1 (Option.isSome_of_eq_some hc)⟩

theorem unique_append (h : Unique log) (hne : ∀ e ∈ events, ∀ e' ∈ log, ¬ SamePair e' e) :
    Unique (log ++ events) ↔ Unique events := by
  unfold Unique at h ⊢
  rw [List.pairwise_append]
  exact ⟨fun h' => h'.2.1, fun h' => ⟨h, h', fun e' he' e he => hne e he e' he'⟩⟩

namespace Commits

/-- The step leaves the stored versions unique, and a call whose batch would not throws a
`ConcurrencyError` and stores nothing. -/
def Keeps (s : Commits I V) (a : CommitAction I V) : Prop :=
  ∀ s', step s a = some s' → Unique s'.storage.events
    ∧ ∀ i events, a = .append i → s.calls[i]? = some (.called events) →
      ¬ Unique (s.storage.events ++ events) →
        s'.storage = s.storage ∧ ∃ v id, s'.calls[i]? = some (.threw (.concurrencyError v id))

/-- A batch in which a version is twice has one that is stored. -/
def Checked (s : Commits I V) : CommitAction I V → Prop
  | .append i => ∀ events, s.calls[i]? = some (.called events) →
      Unique events ∨ ∃ e ∈ events, ∃ e' ∈ s.storage.events, SamePair e' e
  | _ => True

variable {s s' : Commits I V}

theorem keeps_iff (h : Unique s.storage.events) (a : CommitAction I V) :
    Keeps s a ↔ Checked s a := by
  rcases a with events | i | i
  · refine ⟨fun _ => trivial, fun _ s' hst => ?_⟩
    obtain rfl := Option.some.inj hst
    exact ⟨h, fun _ _ ha => nomatch ha⟩
  · rcases hi : s.calls[i]? with _ | (events | events | events | error)
    case some.called =>
      obtain ⟨v, id, hc, hsame⟩ | ⟨hc, hne⟩ := commitEvents_cases s.storage events
      · have hst : step s (.append i) =
            some { s with calls := s.calls.set i (.threw (.concurrencyError v id)) } := by
          simp [step, hi, hc]
        refine ⟨fun _ events' hi' => ?_, fun _ s' hst' => ?_⟩
        · obtain rfl : events = events' := by simpa [hi] using hi'
          exact .inr hsame
        · obtain rfl := Option.some.inj (hst.symm.trans hst')
          refine ⟨h, fun j _ hj _ _ => ⟨rfl, v, id, ?_⟩⟩
          obtain rfl : i = j := by simpa using hj
          exact List.getElem?_set_self (List.getElem?_eq_some_iff.1 hi).1
      · have hst : step s (.append i) = some
            { storage := { s.storage with events := s.storage.events ++ events }
              calls := s.calls.set i (.appended events) } := by
          simp [step, hi, hc]
        have hiff := unique_append h hne
        refine ⟨fun hk events' hi' => ?_, fun hch s' hst' => ?_⟩
        · obtain rfl : events = events' := by simpa [hi] using hi'
          exact .inl (hiff.1 (hk _ hst).1)
        · obtain rfl := Option.some.inj (hst.symm.trans hst')
          obtain hu | ⟨e, he, e', he', hsame⟩ := hch events hi
          · refine ⟨hiff.2 hu, fun j events' hj hi' hnot => ?_⟩
            obtain rfl : i = j := by simpa using hj
            obtain rfl : events = events' := by simpa [hi] using hi'
            exact absurd (hiff.2 hu) hnot
          · exact absurd hsame (hne e he e' he')
    all_goals
      exact ⟨fun _ _ hi' => by simp [hi] at hi', fun _ s' hst => by simp [step, hi] at hst⟩
  · refine ⟨fun _ => trivial, fun _ s' hst => ?_⟩
    simp only [step] at hst
    split at hst
    · obtain rfl := Option.some.inj hst
      exact ⟨h, fun _ _ ha => nomatch ha⟩
    · cases hst

/-- In a run of calls the stored versions stay unique, and whatever would break that is refused, if
and only if no batch is appended in which a version is twice. -/
theorem versions_unique_iff (l : List (CommitAction I V)) :
    machine.Along Keeps ({} : Commits I V) l ↔ machine.Along Checked ({} : Commits I V) l := by
  have hkeeps : ∀ (s : Commits I V) (a : CommitAction I V) (s' : Commits I V),
      Unique s.storage.events → Keeps s a → step s a = some s' → Unique s'.storage.events :=
    fun _ _ s' _ hk hst => (hk s' hst).1
  exact Machine.along_congr (M := machine) hkeeps (fun _ a h => keeps_iff h a) List.Pairwise.nil

/-- A batch of two events of one version. -/
def twice : List (Event String ℕ) :=
  [{ type := "created", aggregateId := some "a", aggregateVersion := some 0, payload := 0 },
    { type := "renamed", aggregateId := some "a", aggregateVersion := some 0, payload := 0 }]

theorem versions_unique_fails :
    ¬ ∀ l, machine.Along Keeps ({} : Commits String ℕ) l := by
  intro h
  have hk := ((h [.commitEvents twice, .append 0]).2 _ rfl).1
  exact absurd (hk _ rfl).1 (by decide)

end Commits

end InMemoryEventStorage

end NodeCqrs
