import NodeCqrs.Proofs.Aggregate

/-!
# What a batch adds to what is stored

The stored events of an aggregate keep their places when the log grows, so what is synced stays so.
A batch that meets no stored version starts at the next one (`start_version`), and with its batch
stored where it starts an instance is synced again (`Synced.of_standsAt`).
-/

namespace NodeCqrs

variable {I V σ : Type} [DecidableEq I] {log log' : List (Event I V)} {id : I}

theorem stored_isPrefix (h : log <+: log') (id : I) : stored log id <+: stored log' id := by
  obtain ⟨l, rfl⟩ := h
  exact ⟨stored l id, by simp [stored]⟩

theorem take_isPrefix {α : Type} {l l' : List α} {n : ℕ} (h : l <+: l') (hn : n ≤ l.length) :
    l'.take n = l.take n := by
  obtain ⟨t, rfl⟩ := h
  rw [List.take_append_of_le_length hn]

namespace AggregateType

variable [Truthy V] {T : AggregateType I V σ}

theorem Synced.mono {a : Aggregate I V σ} (h : log <+: log') (hs : T.Synced log a) :
    T.Synced log' a := by
  have hp := stored_isPrefix h a.id
  refine ⟨Nat.le_trans hs.version hp.length_le, ?_⟩
  rw [take_isPrefix hp hs.version]
  exact hs.state

/-- An instance that has emitted nothing is as synced as it was. -/
theorem Synced.of_emitted_nil {a a' : Aggregate I V σ} (hs : T.Synced log a)
    (h : T.Emitted a a' []) : T.Synced log a' := by
  have hv : a'.version = a.version := h.version
  refine ⟨by rw [h.id, hv]; exact hs.version, ?_⟩
  rw [h.id, hv, h.state]
  exact hs.state

omit [Truthy V] in
theorem StoredSnapshot.mono {S : Event I V} (h : log <+: log') (hs : StoredSnapshot log id S) :
    StoredSnapshot log' id S := by
  obtain ⟨k, hk, hS, ht⟩ := hs
  refine ⟨k, hk, ?_, ht⟩
  obtain ⟨t, ht⟩ := stored_isPrefix h id
  obtain ⟨hlt, -⟩ := List.getElem?_eq_some_iff.1 hS
  rwa [← ht, List.getElem?_append_left hlt]

variable {events : List (Event I V)} {a a' : Aggregate I V σ}

/-- A batch that meets no stored version starts at the next. -/
theorem start_version {a a' : Aggregate I V σ}
    (hn : Numbered (·.aggregateVersion) 0 (stored log a.id)) (hs : T.Synced log a)
    (he : T.Emitted a a' events) (hne : events ≠ [])
    (hc : ∀ e ∈ events, InMemoryEventStorage.conflict log e = none) :
    a.version = (stored log a.id).length := by
  refine Nat.le_antisymm hs.version (Nat.le_of_not_lt fun hlt => ?_)
  obtain ⟨e, rest, rfl⟩ := List.exists_cons_of_ne_nil hne
  obtain ⟨x, hx, hv⟩ := hn.exists_mem (Nat.zero_le _) (by simpa using hlt)
  obtain ⟨hx, hid⟩ := List.mem_filter.1 hx
  have hev : e.aggregateVersion = some a.version := he.numbered.1
  have heid : e.aggregateId = some a.id := he.ofId e List.mem_cons_self
  have := hc e List.mem_cons_self
  simp only [InMemoryEventStorage.conflict, hev, heid] at this
  rw [if_pos (List.any_eq_true.2 ⟨x, hx, by
    simpa [InMemoryEventStorage.sameVersion, hev, heid, hv] using hid⟩)] at this
  cases this

omit [Truthy V] in
theorem stored_append (hid : ∀ e ∈ events, e.aggregateId = some a.id) (id : I) :
    stored (log ++ events) id = stored log id ++ if id = a.id then events else [] := by
  rw [stored, List.filter_append]
  congr 1
  split_ifs with h
  · exact List.filter_eq_self.2 fun e he => by simp [hid e he, h]
  · exact List.filter_eq_nil_iff.2 fun e he => by simp [hid e he, Ne.symm h]

/-- The instance's version counts stored events, and its state, where it is known, is theirs. -/
structure SyncedIf (T : AggregateType I V σ) (known : Prop) (log : List (Event I V))
    (a : Aggregate I V σ) : Prop where
  version : a.version ≤ (stored log a.id).length
  synced : known → T.Synced log a

theorem SyncedIf.mono {known : Prop} (h : log <+: log') (hs : T.SyncedIf known log a) :
    T.SyncedIf known log' a :=
  ⟨Nat.le_trans hs.version (stored_isPrefix h a.id).length_le, fun hk => (hs.synced hk).mono h⟩

omit [Truthy V] in
/-- The events are stored one after the other from the version on. -/
def StandsAt (log : List (Event I V)) (id : I) (version : ℕ) (events : List (Event I V)) : Prop :=
  ∃ pre post, stored log id = pre ++ events ++ post ∧ pre.length = version

omit [Truthy V] in
theorem StandsAt.mono {version : ℕ} (h : log <+: log') (hst : StandsAt log id version events) :
    StandsAt log' id version events := by
  obtain ⟨pre, post, hst, hv⟩ := hst
  obtain ⟨t, ht⟩ := stored_isPrefix h id
  exact ⟨pre, post ++ t, by rw [← ht, hst, List.append_assoc], hv⟩

omit [Truthy V] in
theorem standsAt_append (hid : ∀ e ∈ events, e.aggregateId = some id) :
    StandsAt (log ++ events) id (stored log id).length events := by
  refine ⟨stored log id, [], ?_, rfl⟩
  rw [stored, List.filter_append, List.append_nil]
  congr 1
  exact List.filter_eq_self.2 fun e he => by simp [hid e he]

omit [Truthy V] in
theorem StandsAt.take {version : ℕ} (h : StandsAt log id version events) :
    version + events.length ≤ (stored log id).length
      ∧ (stored log id).take (version + events.length) =
        (stored log id).take version ++ events := by
  obtain ⟨pre, post, hst, rfl⟩ := h
  rw [hst, ← List.length_append, List.take_left, List.append_assoc, List.take_left]
  exact ⟨by rw [List.length_append, List.length_append, List.length_append]; omega, rfl⟩

/-- With its batch stored where it starts the instance is synced with it too. -/
theorem Synced.of_standsAt (hs : T.Synced log a) (he : T.Emitted a a' events)
    (hst : StandsAt log a.id a.version events) : T.Synced log a' := by
  obtain ⟨hle, htake⟩ := hst.take
  refine ⟨by rw [he.id, he.version]; exact hle, ?_⟩
  rw [he.id, he.version, htake]
  intro hsuf
  rw [he.state, hs.state (sufficient_append.1 hsuf).1, stateAfter_append]

/-- Replaying a batch after what was stored throws no more than emitting it did. -/
theorem replays_stored_append
    (hr : ∀ id n, T.Sufficient (T.state id) ((stored log id).take n) →
      T.Replays (T.state id) ((stored log id).take n))
    (hs : T.Synced log a) (he : T.Emitted a a' events)
    (hv : a.version = (stored log a.id).length) (id : I) (n : ℕ)
    (hsuf : T.Sufficient (T.state id)
      ((stored (log ++ events) id).take n)) :
    T.Replays (T.state id) ((stored (log ++ events) id).take n) := by
  rw [stored_append he.ofId, List.take_append] at hsuf ⊢
  obtain ⟨h1, -⟩ := sufficient_append.1 hsuf
  refine replays_append.2 ⟨hr id n h1, ?_⟩
  rcases Nat.lt_or_ge n (stored log id).length with hlt | hle
  · rw [Nat.sub_eq_zero_of_le (Nat.le_of_lt hlt)]
    exact trivial
  · split_ifs with hid
    · subst hid
      have hstate := hs.state
      rw [hv, List.take_length] at hstate
      rw [List.take_of_length_le hle] at h1 ⊢
      rw [← hstate h1]
      exact he.returned.take _
    · rw [List.take_nil]
      exact trivial

theorem takenIn_append (ht : ∀ id, T.TakenIn log id)
    (hs : T.Synced log a) (he : T.Emitted a a' events)
    (hv : a.version = (stored log a.id).length) (hev : T.Taken a.state events)
    (id : I) : T.TakenIn (log ++ events) id := by
  intro k S hk hS hsuf
  rw [stored_append he.ofId] at hk hsuf ⊢
  by_cases hlt : k < (stored log id).length
  · rw [List.getElem?_append_left hlt] at hk
    rw [List.take_append_of_le_length (Nat.le_of_lt hlt)] at hsuf ⊢
    exact ht id k S hk hS hsuf
  · have hle : (stored log id).length ≤ k := Nat.le_of_not_lt hlt
    rw [List.getElem?_append_right hle] at hk
    split_ifs at hk hsuf ⊢ with hid
    · subst hid
      rw [List.take_append, List.take_of_length_le hle] at hsuf ⊢
      have hstate := hs.state
      rw [hv, List.take_length] at hstate
      rw [stateAfter_append, ← hstate (sufficient_append.1 hsuf).1]
      exact hev _ S hk hS
    · simp at hk

omit [Truthy V] in
/-- An event of a batch is stored at its version. -/
theorem StandsAt.getElem? {version : ℕ} (hst : StandsAt log id version events)
    (hn : Numbered (·.aggregateVersion) version events) {e : Event I V} (he : e ∈ events) :
    ∃ v, e.aggregateVersion = some v ∧ version ≤ v ∧ (stored log id)[v]? = some e := by
  obtain ⟨j, hj⟩ := List.mem_iff_getElem?.1 he
  obtain ⟨pre, post, hst, rfl⟩ := hst
  obtain ⟨hlt, -⟩ := List.getElem?_eq_some_iff.1 hj
  refine ⟨pre.length + j, hn.getElem? hj, Nat.le_add_right .., ?_⟩
  rw [hst, List.append_assoc, List.getElem?_append_right (Nat.le_add_right ..),
    Nat.add_sub_cancel_left, List.getElem?_append_left hlt]
  exact hj

/-- The snapshots in a batch are stored with it. -/
theorem StandsAt.storedSnapshot {version : ℕ} (hst : StandsAt log id version events)
    (hn : Numbered (·.aggregateVersion) version events) {S : Event I V} (hS : S ∈ events)
    (ht : isSnapshotEvent S) : StoredSnapshot log id S := by
  obtain ⟨v, hv, -, hget⟩ := hst.getElem? hn hS
  simp only [isSnapshotEvent, Bool.and_eq_true, decide_eq_true_eq] at ht
  exact ⟨v, hv, hget, ht.1.2⟩

end AggregateType

end NodeCqrs
