import NodeCqrs.Mongo.Commits
import NodeCqrs.Proofs.MongoEventStorage

/-!
# What concurrent `commitEvents` calls leave in the collection

As long as no rollback fails and no answer to an insert is lost, a document in the collection is one
of a call that returned, or one a call under way has inserted (`Inv`), so with no call under way the
collection is what the calls that returned committed. That the versions have no gap needs more: a
process may read a half-written batch and go on from it, and the rollback of that batch then leaves
its events without the ones below (`atomic_fails`). It holds of a run in which moreover no insert
goes on from a version no longer stored and no rollback deletes from under another event (`OnTop`).
-/

namespace NodeCqrs

namespace MongoEventStorage

variable {A V : Type}

namespace Commits

@[simp] theorem set_collection (s : Commits A V) (p : ℕ) (ph : Phase A V) :
    (s.set p ph).collection = s.collection := rfl

@[simp] theorem set_returned (s : Commits A V) (p : ℕ) (ph : Phase A V) :
    (s.set p ph).returned = s.returned := rfl

@[simp] theorem set_phase_same (s : Commits A V) (p : ℕ) (ph : Phase A V) :
    (s.set p ph).phase p = ph := by
  simp [set]

@[simp] theorem setCollection_collection (s : Commits A V) (coll : List (EventDocument A V)) :
    (s.setCollection coll).collection = coll := rfl

@[simp] theorem setCollection_returned (s : Commits A V) (coll : List (EventDocument A V)) :
    (s.setCollection coll).returned = s.returned := rfl

@[simp] theorem setCollection_phase (s : Commits A V) (coll : List (EventDocument A V)) (p : ℕ) :
    (s.setCollection coll).phase p = s.phase p := rfl

theorem set_phase_ne (s : Commits A V) {p q : ℕ} (ph : Phase A V) (h : q ≠ p) :
    (s.set p ph).phase q = s.phase q := by
  simp [set, h]

/-- The documents a call under way has in the collection. -/
def insertedBy : Phase A V → List (EventDocument A V)
  | .inserting _ _ inserted _ => inserted
  | .rollingBack inserted => inserted
  | _ => []

/-- The events of a call are of one aggregate, with consecutive versions. -/
def Batch : Phase A V → Prop
  | .inserting a last inserted docs =>
    (∀ d ∈ inserted ++ docs, d.aggregateId = some a)
      ∧ Numbered (·.aggregateVersion) (nextVersion last) (inserted ++ docs)
  | .rollingBack inserted => ∃ a k, (∀ d ∈ inserted, d.aggregateId = some a)
      ∧ Numbered (·.aggregateVersion) k inserted
  | _ => True

/-- Where only the phase of one process changes, what it has inserted decides. -/
theorem insertedBy_set {s : Commits A V} {p q : ℕ} {ph : Phase A V} :
    insertedBy ((s.set p ph).phase q) =
      if q = p then insertedBy ph else insertedBy (s.phase q) := by
  by_cases h : q = p
  · subst h
    simp
  · simp [set_phase_ne _ _ h, h]

theorem batch_set {s : Commits A V} {p : ℕ} {ph : Phase A V} (hI : ∀ q, Batch (s.phase q))
    (h : Batch ph) (q : ℕ) : Batch ((s.set p ph).phase q) := by
  by_cases hq : q = p
  · subst hq
    simpa using h
  · simpa [set_phase_ne _ _ hq] using hI q

end Commits

variable [DecidableEq A]

namespace Commits

/-- What a step must be for the versions to keep no gap: a batch's first insert finds the version
it goes on from still stored, and a rollback is carried out and leaves no later event of its
aggregate. An insert that rejects was not carried out. -/
def OnTop (s : Commits A V) : CommitAction A V → Prop
  | .insertOne p => ∀ a b d docs, s.phase p = .inserting a (some b) [] (d :: docs) → s.Stored a b
  | .deleteMany p => ∀ inserted, s.phase p = .rollingBack inserted → ∀ d ∈ inserted,
      ∀ e ∈ s.collection, e.aggregateId = d.aggregateId → ∀ v w, d.aggregateVersion = some v →
        e.aggregateVersion = some w → v < w → e ∈ inserted
  | .insertUnanswered _ | .deleteFails _ => False
  | _ => True

/-- What a step does: it inserts a document, deletes those of a failed call, returns, or changes
neither the collection nor what the calls have in it. -/
theorem step_cases {s s' : Commits A V} {act : CommitAction A V} (hC : OnTop s act)
    (h : step s act = some s') :
    (∃ p ph, s' = s.set p ph ∧ insertedBy ph = insertedBy (s.phase p)
        ∧ (Batch (s.phase p) → Batch ph))
    ∨ (∃ p a last inserted d docs, act = .insertOne p
        ∧ s.phase p = .inserting a last inserted (d :: docs)
        ∧ (∀ e ∈ s.collection, ¬ sameKey d e)
        ∧ s' = (s.setCollection (s.collection ++ [d])).set p
            (.inserting a last (inserted ++ [d]) docs))
    ∨ (∃ p inserted, act = .deleteMany p ∧ s.phase p = .rollingBack inserted
        ∧ s' = (s.setCollection (MongoEventStorage.deleteMany s.collection
            (inserted.map EventDocument._id))).set p .idle)
    ∨ ∃ p a last inserted, s.phase p = .inserting a last inserted []
        ∧ s' = { s with returned := s.returned ++ inserted }.set p .idle := by
  have hfailed : ∀ {p a last inserted d docs},
      s.phase p = .inserting a last inserted (d :: docs) → s' = s.failed p inserted →
      ∃ p ph, s' = s.set p ph ∧ insertedBy ph = insertedBy (s.phase p)
        ∧ (Batch (s.phase p) → Batch ph) := by
    intro p a last inserted d docs hp hs'
    refine ⟨p, _, hs', ?_, fun hb => ?_⟩
    · rw [hp]
      split_ifs with hn <;> simp [insertedBy, hn]
    · rw [hp] at hb
      split_ifs with hn
      · trivial
      · exact ⟨a, _, fun e he => hb.1 e (List.mem_append_left _ he), (Numbered.append_iff.1 hb.2).1⟩
  cases act with
  | getAggregateEvents p a =>
    simp only [step] at h
    split at h <;> simp only [Option.some.injEq, reduceCtorEq] at h
    all_goals
      rename_i hp
      exact .inl ⟨p, _, h.symm, by rw [hp]; rfl, fun _ => trivial⟩
  | commitEvents p docs =>
    simp only [step] at h
    split at h
    · rename_i a last hp
      split_ifs at h with hd
      simp only [Option.some.injEq] at h
      exact .inl ⟨p, _, h.symm, by rw [hp]; rfl, fun _ => by simpa [Batch] using hd⟩
    · cases h
  | insertOne p =>
    simp only [step] at h
    split at h
    · rename_i a last inserted d docs hp
      split at h <;> rename_i hi <;> simp only [Option.some.injEq] at h
      · obtain ⟨rfl, hkey⟩ := insertOne_eq_some hi
        exact .inr (.inl ⟨p, a, last, inserted, d, docs, rfl, hp, hkey, h.symm⟩)
      · exact .inl (hfailed hp h.symm)
    · cases h
  | insertFails p =>
    simp only [step] at h
    split at h <;> simp only [Option.some.injEq, reduceCtorEq] at h
    rename_i hp
    exact .inl (hfailed hp h.symm)
  | insertUnanswered p => exact hC.elim
  | deleteFails p => exact hC.elim
  | deleteMany p =>
    simp only [step] at h
    split at h <;> simp only [Option.some.injEq, reduceCtorEq] at h
    rename_i inserted hp
    exact .inr (.inr (.inl ⟨p, inserted, rfl, hp, h.symm⟩))
  | returns p =>
    simp only [step] at h
    split at h <;> simp only [Option.some.injEq, reduceCtorEq] at h
    rename_i a last inserted hp
    exact .inr (.inr (.inr ⟨p, a, last, inserted, hp, h.symm⟩))

/-- The collection holds the documents of the calls that returned and those of the calls under
way, each once. -/
structure Inv (s : Commits A V) : Prop where
  keys : s.collection.Pairwise fun d e => ¬ sameKey d e
  mem : ∀ d, d ∈ s.collection ↔ d ∈ s.returned ∨ ∃ p, d ∈ insertedBy (s.phase p)
  once : s.returned.Nodup
  onceBy : ∀ p, (insertedBy (s.phase p)).Nodup
  own : ∀ p, ∀ d ∈ insertedBy (s.phase p), d ∉ s.returned ∧ ∀ q ≠ p, d ∉ insertedBy (s.phase q)
  batch : ∀ p, Batch (s.phase p)

theorem Inv.mem_collection {s : Commits A V} (hI : Inv s) {p : ℕ} {d : EventDocument A V}
    (hd : d ∈ insertedBy (s.phase p)) : d ∈ s.collection :=
  (hI.mem d).2 (.inr ⟨p, hd⟩)

theorem Inv.of_phase {s : Commits A V} (hI : Inv s) {p : ℕ} {ph : Phase A V}
    (hi : insertedBy ph = insertedBy (s.phase p)) (hb : Batch ph) : Inv (s.set p ph) := by
  have hq : ∀ q, insertedBy ((s.set p ph).phase q) = insertedBy (s.phase q) := by
    intro q
    rw [insertedBy_set]
    split_ifs with h
    · rw [h, hi]
    · rfl
  refine ⟨hI.keys, ?_, hI.once, ?_, ?_, batch_set hI.batch hb⟩
  · simpa only [hq, set_collection, set_returned] using hI.mem
  · simpa only [hq] using hI.onceBy
  · simpa only [hq, set_returned] using hI.own

theorem Inv.insert {s : Commits A V} (hI : Inv s) {p : ℕ} {a : A} {last : Option ℕ}
    {inserted docs : List (EventDocument A V)} {d : EventDocument A V}
    (hp : s.phase p = .inserting a last inserted (d :: docs))
    (hk : ∀ e ∈ s.collection, ¬ sameKey d e) :
    Inv ((s.setCollection (s.collection ++ [d])).set p
      (.inserting a last (inserted ++ [d]) docs)) := by
  have hnew : d ∉ s.collection := fun hd => hk d hd (by simp [sameKey])
  have hins : insertedBy (s.phase p) = inserted := by rw [hp]; rfl
  have hnot : ∀ q, d ∉ insertedBy (s.phase q) := fun q hd => hnew (hI.mem_collection hd)
  have hret : d ∉ s.returned := fun hd => hnew ((hI.mem d).2 (.inl hd))
  refine ⟨?_, ?_, hI.once, ?_, ?_, batch_set hI.batch ?_⟩
  · simp only [set_collection, setCollection_collection, List.pairwise_append,
      List.pairwise_singleton, true_and, List.mem_singleton, forall_eq]
    exact ⟨hI.keys, fun e he hke => hk e he (sameKey_symm hke)⟩
  · intro e
    simp only [set_collection, set_returned, setCollection_collection, setCollection_returned,
      List.mem_append, List.mem_singleton, hI.mem e]
    constructor
    · rintro ((he | ⟨q, hq⟩) | rfl)
      · exact .inl he
      · refine .inr ⟨q, ?_⟩
        rw [insertedBy_set]
        split_ifs with h
        · exact List.mem_append_left _ (by rwa [h, hins] at hq)
        · exact hq
      · exact .inr ⟨p, by simp [insertedBy]⟩
    · rintro (he | ⟨q, hq⟩)
      · exact .inl (.inl he)
      · rw [insertedBy_set] at hq
        split_ifs at hq with h
        · rcases List.mem_append.1 hq with hq | hq
          · exact .inl (.inr ⟨p, by rwa [hins]⟩)
          · exact .inr (List.mem_singleton.1 hq)
        · exact .inl (.inr ⟨q, hq⟩)
  · intro q
    rw [insertedBy_set]
    split_ifs with h
    · have := hI.onceBy p
      rw [hins] at this
      exact List.nodup_append.2 ⟨this, List.nodup_singleton d, fun e he f hf => by
        rintro rfl
        exact hnot p (by rw [hins]; rwa [List.mem_singleton.1 hf] at he)⟩
    · exact hI.onceBy q
  · intro q e he
    rw [insertedBy_set] at he
    have hold : e ∈ insertedBy (s.phase q) ∨ (q = p ∧ e = d) := by
      split_ifs at he with h
      · rcases List.mem_append.1 he with he | he
        · exact .inl (by rw [h, hins]; exact he)
        · exact .inr ⟨h, List.mem_singleton.1 he⟩
      · exact .inl he
    rcases hold with hold | ⟨rfl, rfl⟩
    · obtain ⟨h1, h2⟩ := hI.own q e hold
      refine ⟨h1, fun r hr her => ?_⟩
      rw [insertedBy_set] at her
      split_ifs at her with hrp
      · rcases List.mem_append.1 her with her | her
        · exact h2 r hr (by rw [hrp, hins]; exact her)
        · exact hnot q (List.mem_singleton.1 her ▸ hold)
      · exact h2 r hr her
    · refine ⟨hret, fun r hr her => ?_⟩
      rw [insertedBy_set, if_neg hr] at her
      exact hnot r her
  · have := hI.batch p
    rw [hp] at this
    simpa [Batch] using this

theorem Inv.return {s : Commits A V} (hI : Inv s) {p : ℕ} {a : A} {last : Option ℕ}
    {inserted : List (EventDocument A V)} (hp : s.phase p = .inserting a last inserted []) :
    Inv ({ s with returned := s.returned ++ inserted }.set p .idle) := by
  have hins : insertedBy (s.phase p) = inserted := by rw [hp]; rfl
  have hown := hI.own p
  rw [hins] at hown
  refine ⟨hI.keys, ?_, ?_, ?_, ?_, batch_set hI.batch trivial⟩
  · intro e
    simp only [set_collection, set_returned, List.mem_append, hI.mem e]
    constructor
    · rintro (he | ⟨q, hq⟩)
      · exact .inl (.inl he)
      · by_cases h : q = p
        · exact .inl (.inr (by rwa [h, hins] at hq))
        · exact .inr ⟨q, by rwa [insertedBy_set, if_neg h]⟩
    · rintro ((he | he) | ⟨q, hq⟩)
      · exact .inl he
      · exact .inr ⟨p, by rwa [hins]⟩
      · rw [insertedBy_set] at hq
        split_ifs at hq with h
        · simp [insertedBy] at hq
        · exact .inr ⟨q, hq⟩
  · have h2 := hI.onceBy p
    rw [hins] at h2
    exact List.nodup_append.2 ⟨hI.once, h2, fun e he f hf => by
      rintro rfl
      exact (hown e hf).1 he⟩
  · intro q
    rw [insertedBy_set]
    split_ifs
    · exact List.nodup_nil
    · exact hI.onceBy q
  · intro q e he
    rw [insertedBy_set] at he
    split_ifs at he with h
    · simp [insertedBy] at he
    · obtain ⟨h1, h2⟩ := hI.own q e he
      refine ⟨fun hr => ?_, fun r hr her => ?_⟩
      · rcases List.mem_append.1 hr with hr | hr
        · exact h1 hr
        · exact (hown e hr).2 q h he
      · rw [insertedBy_set] at her
        split_ifs at her
        · simp [insertedBy] at her
        · exact h2 r hr her

/-- A rollback deletes exactly what its call had inserted. -/
theorem Inv.mem_deleteMany {s : Commits A V} (hI : Inv s) {p : ℕ} (d : EventDocument A V) :
    d ∈ MongoEventStorage.deleteMany s.collection
        ((insertedBy (s.phase p)).map EventDocument._id)
      ↔ d ∈ s.collection ∧ d ∉ insertedBy (s.phase p) := by
  simp only [MongoEventStorage.deleteMany, List.mem_filter, decide_eq_true_eq, List.mem_map,
    not_exists, not_and]
  refine and_congr_right fun hd => ⟨fun h hm => h d hm rfl, fun h e he hid => h ?_⟩
  have : e = d := eq_of_sameKey hI.keys (hI.mem_collection he) hd (by simp [sameKey, hid])
  exact this ▸ he

theorem Inv.delete {s : Commits A V} (hI : Inv s) {p : ℕ}
    {inserted : List (EventDocument A V)} (hp : s.phase p = .rollingBack inserted) :
    Inv ((s.setCollection (MongoEventStorage.deleteMany s.collection
      (inserted.map EventDocument._id))).set p .idle) := by
  have hins : insertedBy (s.phase p) = inserted := by rw [hp]; rfl
  have hmem := hI.mem_deleteMany (p := p)
  rw [hins] at hmem
  have hown := hI.own p
  rw [hins] at hown
  refine ⟨hI.keys.sublist List.filter_sublist, ?_, hI.once, ?_, ?_, batch_set hI.batch trivial⟩
  · intro e
    simp only [set_collection, set_returned, setCollection_collection, setCollection_returned,
      hmem, hI.mem e]
    constructor
    · rintro ⟨he | ⟨q, hq⟩, hne⟩
      · exact .inl he
      · have h : q ≠ p := fun h => hne (by rwa [h, hins] at hq)
        exact .inr ⟨q, by rwa [insertedBy_set, if_neg h]⟩
    · rintro (he | ⟨q, hq⟩)
      · exact ⟨.inl he, fun hd => (hown e hd).1 he⟩
      · rw [insertedBy_set] at hq
        split_ifs at hq with h
        · simp [insertedBy] at hq
        · exact ⟨.inr ⟨q, hq⟩, fun hd => (hown e hd).2 q h hq⟩
  · intro q
    rw [insertedBy_set]
    split_ifs
    · exact List.nodup_nil
    · exact hI.onceBy q
  · intro q e he
    rw [insertedBy_set] at he
    split_ifs at he with h
    · simp [insertedBy] at he
    · obtain ⟨h1, h2⟩ := hI.own q e he
      refine ⟨h1, fun r hr her => ?_⟩
      rw [insertedBy_set] at her
      split_ifs at her
      · simp [insertedBy] at her
      · exact h2 r hr her

theorem inv_step {s s' : Commits A V} {act : CommitAction A V} (hI : Inv s)
    (hC : OnTop s act) (h : step s act = some s') : Inv s' := by
  rcases step_cases hC h with ⟨p, ph, rfl, hi, hb⟩ |
    ⟨p, a, last, inserted, d, docs, -, hp, hk, rfl⟩ | ⟨p, inserted, -, hp, rfl⟩ |
    ⟨p, a, last, inserted, hp, rfl⟩
  · exact hI.of_phase hi (hb (hI.batch p))
  · exact hI.insert hp hk
  · exact hI.delete hp
  · exact hI.return hp

theorem inv_init {s : Commits A V} (h : Init s) : Inv s := by
  obtain ⟨h1, h2, h3⟩ := h
  refine ⟨by simp [h1], fun d => ?_, by simp [h2], fun p => ?_, fun p d hd => ?_, fun p => ?_⟩
  · simp [h1, h2, h3, insertedBy]
  · simp [h3, insertedBy]
  · simp [h3, insertedBy] at hd
  · simp [h3, Batch]

theorem inv {s : Commits A V} (h : machine.ReachIf OnTop s) : Inv s :=
  h.invariant (P := Inv) (fun _ => inv_init) fun _ _ _ hI hC hs => inv_step hI hC hs

/-- With no call under way the collection is what the calls that returned committed. -/
theorem perm_returned {s : Commits A V} (hI : Inv s) (hq : Quiescent s) :
    s.collection.Perm s.returned := by
  have hcoll : s.collection.Nodup := hI.keys.imp fun h he => h (by simp [he, sameKey])
  refine (List.perm_ext_iff_of_nodup hcoll hI.once).2 fun d => ?_
  rw [hI.mem d]
  refine ⟨fun h => h.elim id ?_, .inl⟩
  rintro ⟨p, hd⟩
  rcases hq p with hp | ⟨a, last, hp⟩ <;> simp [hp, insertedBy] at hd

/-- Each aggregate's versions are `0, …, n - 1`. -/
def Contiguous (s : Commits A V) : Prop := ∀ a, ∃ n, ∀ v, s.Stored a v ↔ v < n

/-- The next document of a batch is the version after its aggregate's last. -/
theorem next_version {s : Commits A V} (hI : Inv s) {p : ℕ} {a : A} {last : Option ℕ}
    {inserted docs : List (EventDocument A V)} {d : EventDocument A V}
    (hp : s.phase p = .inserting a last inserted (d :: docs))
    (hC : OnTop s (.insertOne p)) :
    d.aggregateId = some a ∧ ∃ v, d.aggregateVersion = some v
      ∧ (v = 0 ∨ ∃ w, v = w + 1 ∧ s.Stored a w) := by
  have hb := hI.batch p
  rw [hp] at hb
  obtain ⟨ha, hn⟩ := hb
  obtain ⟨hn1, hn2⟩ := Numbered.append_iff.1 hn
  refine ⟨ha d (by simp), _, hn2.1, ?_⟩
  rcases inserted.eq_nil_or_concat' with rfl | ⟨l, e, rfl⟩
  · rcases last with _ | b
    · exact .inl rfl
    · exact .inr ⟨b, rfl, hC a b d docs hp⟩
  · -- the version before is the call's own previous insert, which only the call deletes
    have he := (Numbered.append_iff.1 hn1).2.1
    refine .inr ⟨_, ?_, e, hI.mem_collection (p := p) (by rw [hp]; simp [insertedBy]),
      ha e (by simp), he⟩
    simp only [List.length_append, List.length_singleton]
    omega

theorem contiguous_insert {s : Commits A V} (hI : Inv s) (hc : Contiguous s) {p : ℕ} {a : A}
    {last : Option ℕ} {inserted docs : List (EventDocument A V)} {d : EventDocument A V}
    (hp : s.phase p = .inserting a last inserted (d :: docs)) (hC : OnTop s (.insertOne p))
    (hk : ∀ e ∈ s.collection, ¬ sameKey d e) {ph : Phase A V} :
    Contiguous ((s.setCollection (s.collection ++ [d])).set p ph) := by
  obtain ⟨ha, v, hv, hprev⟩ := next_version hI hp hC
  have hst : ∀ b w, Stored ((s.setCollection (s.collection ++ [d])).set p ph) b w
      ↔ s.Stored b w ∨ (a = b ∧ v = w) := by
    intro b w
    simp only [Stored, set_collection, setCollection_collection, List.mem_append,
      List.mem_singleton, or_and_right, exists_or, exists_eq_left, ha, hv, Option.some.injEq]
  intro b
  obtain ⟨n, hn⟩ := hc b
  by_cases hab : a = b
  · subst hab
    have hnot : ¬ s.Stored a v := by
      rintro ⟨e, he, hea, hev⟩
      exact hk e he (sameKey_of_version ha hea hv hev)
    have hvn : v = n := by
      rcases hprev with rfl | ⟨w, rfl, hw⟩
      · have := (hn 0).not.1 hnot
        omega
      · have h1 := (hn w).1 hw
        have h2 := (hn (w + 1)).not.1 hnot
        omega
    refine ⟨n + 1, fun w => ?_⟩
    rw [hst, hn, hvn]
    simp only [true_and]
    omega
  · refine ⟨n, fun w => ?_⟩
    rw [hst, hn]
    simp [hab]

theorem contiguous_delete {s : Commits A V} (hI : Inv s) (hc : Contiguous s) {p : ℕ}
    {inserted : List (EventDocument A V)} (hp : s.phase p = .rollingBack inserted)
    (hC : OnTop s (.deleteMany p)) {ph : Phase A V} :
    Contiguous ((s.setCollection (MongoEventStorage.deleteMany s.collection
      (inserted.map EventDocument._id))).set p ph) := by
  have hins : insertedBy (s.phase p) = inserted := by rw [hp]; rfl
  have hmem := hI.mem_deleteMany (p := p)
  have hcoll : ∀ d ∈ inserted, d ∈ s.collection := fun d hd =>
    hI.mem_collection (p := p) (by rwa [hins])
  have hb := hI.batch p
  rw [hins] at hmem
  rw [hp] at hb
  obtain ⟨a, k, ha, hk⟩ := hb
  have hst : ∀ b w, Stored ((s.setCollection (MongoEventStorage.deleteMany s.collection
        (inserted.map EventDocument._id))).set p ph) b w
      ↔ s.Stored b w ∧ ¬ ∃ d ∈ inserted, d.aggregateId = some b ∧ d.aggregateVersion = some w := by
    intro b w
    simp only [Stored, set_collection, setCollection_collection, hmem]
    constructor
    · rintro ⟨e, ⟨he, hne⟩, heb, hew⟩
      refine ⟨⟨e, he, heb, hew⟩, ?_⟩
      rintro ⟨d, hd, hdb, hdw⟩
      exact hne (eq_of_sameKey hI.keys (hcoll d hd) he (sameKey_of_version hdb heb hdw hew) ▸ hd)
    · rintro ⟨⟨e, he, heb, hew⟩, hno⟩
      exact ⟨e, ⟨he, fun hd => hno ⟨e, hd, heb, hew⟩⟩, heb, hew⟩
  intro b
  obtain ⟨n, hn⟩ := hc b
  by_cases hab : b = a
  · subst hab
    -- the batch is the versions from `k` up, and `k` is where the rest ends
    rcases Nat.eq_zero_or_pos inserted.length with h0 | hpos
    · refine ⟨n, fun w => ?_⟩
      rw [hst, hn, List.length_eq_zero_iff.1 h0]
      simp
    have hlast : ∀ w, w < n → w < k + inserted.length := by
      intro w hw
      by_contra hge
      obtain ⟨d, hd, hdv⟩ := hk.exists_mem le_rfl (by omega)
      obtain ⟨e, he, hea, hev⟩ := (hn w).2 hw
      have hmem' := hC inserted hp d hd e he (by rw [hea, ha d hd]) k w hdv hev (by omega)
      obtain ⟨v, hv, -, hlt⟩ := hk.bounds hmem'
      rw [hev, Option.some.injEq] at hv
      omega
    have hkn : k + inserted.length ≤ n := by
      obtain ⟨d, hd, hdv⟩ := hk.exists_mem (v := k + inserted.length - 1) (by omega) (by omega)
      have := (hn _).1 ⟨d, hcoll d hd, ha d hd, hdv⟩
      omega
    refine ⟨k, fun w => ?_⟩
    rw [hst, hn]
    constructor
    · rintro ⟨hw, hno⟩
      by_contra hge
      obtain ⟨d, hd, hdv⟩ := hk.exists_mem (v := w) (by omega) (hlast w hw)
      exact hno ⟨d, hd, ha d hd, hdv⟩
    · intro hw
      refine ⟨by omega, ?_⟩
      rintro ⟨d, hd, -, hdv⟩
      obtain ⟨v, hv, hle, -⟩ := hk.bounds hd
      rw [hdv, Option.some.injEq] at hv
      omega
  · refine ⟨n, fun w => ?_⟩
    rw [hst, hn, and_iff_left]
    rintro ⟨d, hd, hdb, -⟩
    rw [ha d hd, Option.some.injEq] at hdb
    exact hab hdb.symm

/-- A step on top of what is stored keeps each aggregate's versions without a gap. -/
theorem contiguous_step {s s' : Commits A V} {act : CommitAction A V} (hI : Inv s)
    (hc : Contiguous s) (hC : OnTop s act) (h : step s act = some s') : Contiguous s' := by
  rcases step_cases hC h with ⟨p, ph, rfl, -, -⟩ |
    ⟨p, a, last, inserted, d, docs, rfl, hp, hk, rfl⟩ | ⟨p, inserted, rfl, hp, rfl⟩ |
    ⟨p, a, last, inserted, -, rfl⟩
  · exact hc
  · exact contiguous_insert hI hc hp hC hk
  · exact contiguous_delete hI hc hp hC
  · exact hc

theorem contiguous {s : Commits A V} (h : machine.ReachIf OnTop s) : Contiguous s := by
  refine h.invariant_of_reach (P := Contiguous) (fun s hs a => ⟨0, fun v => ?_⟩)
    fun s act s' hr hc hC hs => contiguous_step (inv hr) hc hC hs
  simp [Stored, hs.1]

/-- In a run of steps on top of what is stored, whenever no call is under way the collection is
what the calls that returned committed, and each aggregate's versions are `0, …, n - 1`. -/
theorem atomic_of_onTop {s : Commits A V} (hr : machine.ReachIf OnTop s) (hq : Quiescent s) :
    Atomic s :=
  ⟨perm_returned (inv hr) hq, contiguous hr⟩

section Runs

/-- A step leaves the other processes as they were. -/
theorem step_phase {s s' : Commits A V} {act : CommitAction A V} {q : ℕ}
    (h : step s act = some s') (hq : q ≠ act.process) : s'.phase q = s.phase q := by
  cases act <;> simp only [step] at h <;> split at h <;> try split at h
  all_goals simp only [Option.some.injEq, reduceCtorEq] at h
  all_goals exact h ▸ set_phase_ne _ _ hq

/-- A run leaves the processes that take no step in it as they were. -/
theorem phase_of_run {q : ℕ} {l : List (CommitAction A V)} {s s' : Commits A V}
    (hl : ∀ act ∈ l, act.process ≠ q) (h : machine.run s l = some s') : s'.phase q = s.phase q :=
  Machine.run_invariant (C := fun _ act => act.process ≠ q) (I := fun t => t.phase q = s.phase q)
    (fun _ _ _ hp hq hst => (step_phase hst hq.symm).trans hp) rfl
    (Machine.Along.of_forall fun act hact _ => hl act hact) h

/-- The `i`-th event of the batches below, of version `v`. -/
def sampleDoc (i : ObjectId) (v : ℕ) : EventDocument String Unit :=
  { _id := i, type := "changed", aggregateId := some "a", aggregateVersion := some v,
    payload := () }

/-- A process commits two events, and two others go on from them: one meets the other's event and
reads anew when that one's second insert has failed and been rolled back. -/
theorem atomic_of_onTop_contended :
    ∃ s : Commits String Unit,
      s.returned = [sampleDoc 0 0, sampleDoc 1 1, sampleDoc 4 2] ∧ Atomic s := by
  let s₀ : Commits String Unit := { collection := [], phase := fun _ => .idle, returned := [] }
  have h0 : machine.ReachIf OnTop s₀ := .init ⟨rfl, rfl, fun _ => rfl⟩
  have h1 := h0.step (CommitAction.getAggregateEvents 0 "a") trivial rfl
  have h2 := h1.step (CommitAction.commitEvents 0 [sampleDoc 0 0, sampleDoc 1 1]) trivial rfl
  have h3 := h2.step (CommitAction.insertOne 0) (fun a b d docs h => by cases h) rfl
  have h4 := h3.step (CommitAction.insertOne 0) (fun a b d docs h => by cases h) rfl
  have h5 := h4.step (CommitAction.returns 0) trivial rfl
  have h6 := h5.step (CommitAction.getAggregateEvents 1 "a") trivial rfl
  have h7 := h6.step (CommitAction.getAggregateEvents 2 "a") trivial rfl
  have h8 := h7.step (CommitAction.commitEvents 1 [sampleDoc 2 2, sampleDoc 3 3]) trivial rfl
  have h9 := h8.step (CommitAction.commitEvents 2 [sampleDoc 4 2]) trivial rfl
  have hlast : ∃ d ∈ [sampleDoc 0 0, sampleDoc 1 1], d.aggregateId = some "a"
      ∧ d.aggregateVersion = some 1 := by decide
  have h10 := h9.step (CommitAction.insertOne 1) (fun a b d docs h => by cases h; exact hlast) rfl
  have hnext : ∃ d ∈ [sampleDoc 0 0, sampleDoc 1 1, sampleDoc 2 2], d.aggregateId = some "a"
      ∧ d.aggregateVersion = some 1 := by decide
  have h11 := h10.step (CommitAction.insertOne 2) (fun a b d docs h => by cases h; exact hnext) rfl
  have h12 := h11.step (CommitAction.insertFails 1) trivial rfl
  have hbelow : ∀ d ∈ [sampleDoc 2 2], ∀ e ∈ [sampleDoc 0 0, sampleDoc 1 1, sampleDoc 2 2],
      ∀ v ∈ d.aggregateVersion, ∀ w ∈ e.aggregateVersion, ¬ v < w := by decide
  have h13 := h12.step (CommitAction.deleteMany 1) (fun inserted h d hd e he _ v w hv hw hlt => by
    cases h
    exact absurd hlt (hbelow d hd e he v hv w hw)) rfl
  have h14 := h13.step (CommitAction.getAggregateEvents 2 "a") trivial rfl
  have h15 := h14.step (CommitAction.commitEvents 2 [sampleDoc 4 2]) trivial rfl
  have h16 := h15.step (CommitAction.insertOne 2) (fun a b d docs h => by cases h; exact hlast) rfl
  have h17 := h16.step (CommitAction.returns 2) trivial rfl
  refine ⟨_, rfl, atomic_of_onTop h17 fun p => .inl ?_⟩
  by_cases h0 : p = 0
  · subst h0
    rfl
  by_cases h1 : p = 1
  · subst h1
    rfl
  by_cases h2 : p = 2
  · subst h2
    rfl
  · simp [set_phase_ne, failed, h0, h1, h2, s₀]

/-- A second process reads the first event of a two-event batch and commits its own second one;
the batch's second insert then conflicts, and the rollback takes the first event away. -/
theorem atomic_fails :
    ¬ ∀ s : Commits String Unit, machine.Reach s → Quiescent s → Atomic s := by
  intro hall
  let s₀ : Commits String Unit := { collection := [], phase := fun _ => .idle, returned := [] }
  obtain ⟨s, hs⟩ : ∃ s, machine.run s₀ [.getAggregateEvents 1 "a",
      .commitEvents 1 [sampleDoc 0 0, sampleDoc 1 1], .insertOne 1, .getAggregateEvents 2 "a",
      .commitEvents 2 [sampleDoc 2 1], .insertOne 2, .returns 2, .insertOne 1,
      .deleteMany 1] = some s := ⟨_, rfl⟩
  have hr : machine.Reach s := Machine.reach_of_run ⟨rfl, rfl, fun _ => rfl⟩ hs
  have hidle : ∀ p, p ≠ 1 → p ≠ 2 → s.phase p = .idle := fun p h1 h2 =>
    phase_of_run (by simp [CommitAction.process, h1.symm, h2.symm]) hs
  cases hs
  obtain ⟨-, hc⟩ := hall _ hr fun p => .inl (by
    by_cases h1 : p = 1
    · subst h1
      rfl
    by_cases h2 : p = 2
    · subst h2
      rfl
    exact hidle p h1 h2)
  obtain ⟨n, hn⟩ := hc "a"
  have h1 := (hn 1).1 ⟨sampleDoc 2 1, by decide, rfl, rfl⟩
  obtain ⟨d, hd, -, hv⟩ := (hn 0).2 (by omega)
  have : ∀ d ∈ [sampleDoc 2 1], d.aggregateVersion ≠ some 0 := by decide
  exact this d hd hv

end Runs

end Commits

end MongoEventStorage

end NodeCqrs
