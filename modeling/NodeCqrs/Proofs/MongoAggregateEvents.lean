import NodeCqrs.Proofs.MongoSelectiveRead

/-!
# What `getAggregateEvents` yields where no one writes

The two finds have filters of their own. They select from the same range of versions but for a
snapshot of version 0, which does not bound the second. So with nothing past version 0 the tail is
the event of version 0 (`getAggregateEvents_meets_iff`).
-/

namespace NodeCqrs

namespace MongoEventStorage

variable {A V : Type} [DecidableEq A] {coll : List (EventDocument A V)} {a : A}
  {q : AggregateEventsQuery}

/-- A stored event of the aggregate, past the snapshot's version. -/
def InRange (coll : List (EventDocument A V)) (a : A) (q : AggregateEventsQuery)
    (d : EventDocument A V) : Prop :=
  d ∈ coll ∧ d.aggregateId = some a
    ∧ ∀ v ∈ q.snapshotVersion, ∃ w ∈ d.aggregateVersion, v < w

/-- In the order of the versions and each once, these are the events in range that are asked for
and, if the tail is, the last in range. -/
structure Meets (coll : List (EventDocument A V)) (a : A) (q : AggregateEventsQuery)
    (yielded : List (EventDocument A V)) : Prop where
  increasing : yielded.Pairwise fun d e => sortKey d < sortKey e
  mem : ∀ d, d ∈ yielded ↔ InRange coll a q d
    ∧ (q.wants d ∨ q.tailLast ∧ ∀ e, InRange coll a q e → sortKey e ≤ sortKey d)

/-- The tail is asked for beside event types past a snapshot of version 0, and all the aggregate has
is not above it. -/
def OnlyZero (coll : List (EventDocument A V)) (a : A) (q : AggregateEventsQuery) : Prop :=
  q.snapshotVersion = some 0 ∧ q.tailLast ∧ q.hasTypeFilter
    ∧ ofAggregate coll a ≠ [] ∧ ∀ d ∈ ofAggregate coll a, ∀ v ∈ d.aggregateVersion, v = 0

omit [DecidableEq A] in
theorem mem_find {P : EventDocument A V → Bool} {d : EventDocument A V} :
    d ∈ sortByVersion (coll.filter P) ↔ d ∈ coll ∧ P d = true := by
  rw [(perm_sortByVersion _).mem_iff, List.mem_filter]

/-- What a find yields of one aggregate is in the order of the versions. -/
theorem find_strict (hk : coll.Pairwise fun d e => ¬ sameKey d e) {P : EventDocument A V → Bool}
    (hP : ∀ d, P d = true → d.aggregateId = some a) :
    (sortByVersion (coll.filter P)).Pairwise fun d e => sortKey d < sortKey e := by
  have hsub : coll.filter P = (ofAggregate coll a).filter P := by
    rw [ofAggregate, List.filter_filter]
    refine List.filter_congr fun d _ => ?_
    by_cases h : P d = true
    · simp [h, hP d h]
    · simp [h]
  rw [hsub]
  exact sortByVersion_strict ((sortKey_ne hk).filter _)

theorem filter_iff {d : EventDocument A V} :
    d ∈ coll ∧ q.filter a d = true ↔ InRange coll a q d ∧ q.wants d = true := by
  unfold InRange AggregateEventsQuery.filter
  rcases hv : q.snapshotVersion with _ | v
  · simp [and_assoc]
  · simp [and_assoc, Option.any_eq_true]

theorem tailFilter_of_inRange {d : EventDocument A V} (h : InRange coll a q d) :
    q.tailFilter a d = true := by
  obtain ⟨-, hid, hv⟩ := h
  unfold AggregateEventsQuery.tailFilter
  rcases hs : q.snapshotVersion with _ | v
  · simp [hid]
  · obtain ⟨w, hw, hlt⟩ := hv v hs
    rw [Option.mem_def] at hw
    simp [hid, hw, hlt]

omit [DecidableEq A] in
/-- The last of a sorted list is past all of it. -/
theorem le_getLast {docs : List (EventDocument A V)} {t d : EventDocument A V}
    (hs : docs.Pairwise fun d e => sortKey d < sortKey e) (ht : docs.getLast? = some t)
    (hd : d ∈ docs) : d = t ∨ sortKey d < sortKey t := by
  obtain ⟨l, rfl⟩ := List.getLast?_eq_some_iff.1 ht
  rcases List.mem_append.1 hd with hd | hd
  · exact .inr ((List.pairwise_append.1 hs).2.2 d hd t (by simp))
  · exact .inl (List.mem_singleton.1 hd)

section Finds

variable (hk : coll.Pairwise fun d e => ¬ sameKey d e)

include hk

theorem filter_strict :
    (sortByVersion (coll.filter (q.filter a))).Pairwise fun d e => sortKey d < sortKey e :=
  find_strict hk fun d h => by
    simp only [AggregateEventsQuery.filter, Bool.and_eq_true, decide_eq_true_eq] at h
    exact h.1.1

theorem tailFilter_strict :
    (sortByVersion (coll.filter (q.tailFilter a))).Pairwise fun d e => sortKey d < sortKey e :=
  find_strict hk fun d h => by
    simp only [AggregateEventsQuery.tailFilter, Bool.and_eq_true, decide_eq_true_eq] at h
    exact h.1

/-- The cursor alone, where no further event is to be yielded. -/
theorem meets_cursor (h : ∀ d, InRange coll a q d → q.tailLast = true →
    (∀ e, InRange coll a q e → sortKey e ≤ sortKey d) → q.wants d = true) :
    Meets coll a q (sortByVersion (coll.filter (q.filter a))) := by
  refine ⟨filter_strict hk, fun d => ?_⟩
  rw [mem_find, filter_iff]
  refine and_congr_right fun hd => ⟨.inl, ?_⟩
  rintro (hw | ⟨ht, hmax⟩)
  · exact hw
  · exact h d hd ht hmax

/-- The cursor and a tail that it has not yielded. -/
theorem meets_tail {t : EventDocument A V} (ht : InRange coll a q t)
    (hmax : ∀ e, InRange coll a q e → sortKey e ≤ sortKey t) (hlast : q.tailLast = true)
    (hw : q.wants t = false) :
    Meets coll a q (sortByVersion (coll.filter (q.filter a)) ++ [t]) := by
  have hbelow : ∀ {d}, InRange coll a q d → q.wants d = true → sortKey d < sortKey t := by
    intro d hd hdw
    refine lt_of_le_of_ne (hmax d hd) fun heq => ?_
    have hsame : sameKey d t := by
      simp [sameKey, hd.2.1, ht.2.1, sortKey_inj heq]
    rw [eq_of_sameKey hk hd.1 ht.1 hsame, hw] at hdw
    cases hdw
  refine ⟨List.pairwise_append.2 ⟨filter_strict hk, List.pairwise_singleton .., ?_⟩, fun d => ?_⟩
  · intro d hd e he
    obtain rfl := List.mem_singleton.1 he
    obtain ⟨hd, hdw⟩ := filter_iff.1 (mem_find.1 hd)
    exact hbelow hd hdw
  · rw [List.mem_append, List.mem_singleton, mem_find, filter_iff]
    constructor
    · rintro (⟨hd, hdw⟩ | rfl)
      · exact ⟨hd, .inl hdw⟩
      · exact ⟨ht, .inr ⟨hlast, hmax⟩⟩
    · rintro ⟨hd, hdw | ⟨-, hdmax⟩⟩
      · exact .inl ⟨hd, hdw⟩
      · have heq := Nat.le_antisymm (hmax d hd) (hdmax t ht)
        exact .inr (eq_of_sameKey hk hd.1 ht.1 (by
          simp [sameKey, hd.2.1, ht.2.1, sortKey_inj heq]))

/-- The tail is new just where its type is not asked for. -/
theorem tail_isNew_iff {t : EventDocument A V} (ht : InRange coll a q t)
    (hmax : ∀ e, InRange coll a q e → sortKey e ≤ sortKey t) :
    ((sortByVersion (coll.filter (q.filter a))).getLast?.all fun lastDoc => t._id ≠ lastDoc._id)
      = !q.wants t := by
  have hmem : ∀ {d}, d ∈ sortByVersion (coll.filter (q.filter a)) ↔
      InRange coll a q d ∧ q.wants d = true := by
    intro d
    rw [mem_find, filter_iff]
  rcases hl : (sortByVersion (coll.filter (q.filter a))).getLast? with _ | last
  · rw [List.getLast?_eq_none_iff] at hl
    have hw : ¬ q.wants t = true := fun hw => by simpa [hl] using hmem.2 ⟨ht, hw⟩
    simp [hw]
  · obtain ⟨hlast, hlw⟩ := hmem.1 (List.mem_of_getLast? hl)
    by_cases hw : q.wants t = true
    · -- the tail is the last that was yielded
      rcases le_getLast (filter_strict hk) hl (hmem.2 ⟨ht, hw⟩) with rfl | hlt
      · simp [hw]
      · exact absurd (hmax last hlast) (Nat.not_le.2 hlt)
    · have hne : t._id ≠ last._id := by
        intro hid
        rw [eq_of_sameKey hk ht.1 hlast.1 (by simp [sameKey, hid])] at hw
        exact hw hlw
      simp [hw, hne]

/-- The second find's document is the last in range, unless it is of version 0 and nothing else is
there. -/
theorem tailDoc_inRange {t : EventDocument A V} (hlast : q.tailLast = true)
    (htypes : q.hasTypeFilter = true) (hne : ¬ OnlyZero coll a q)
    (ht : (sortByVersion (coll.filter (q.tailFilter a))).getLast? = some t) :
    InRange coll a q t ∧ ∀ e, InRange coll a q e → sortKey e ≤ sortKey t := by
  have hmax : ∀ {e}, e ∈ coll → q.tailFilter a e = true → sortKey e ≤ sortKey t := by
    intro e he hf
    rcases le_getLast (tailFilter_strict hk) ht (mem_find.2 ⟨he, hf⟩) with rfl | hlt
    · exact Nat.le_refl _
    · exact hlt.le
  obtain ⟨htc, htf⟩ := mem_find.1 (List.mem_of_getLast? ht)
  refine ⟨⟨htc, ?_⟩, fun e he => hmax he.1 (tailFilter_of_inRange he)⟩
  simp only [AggregateEventsQuery.tailFilter, Bool.and_eq_true, decide_eq_true_eq] at htf
  refine ⟨htf.1, fun v hv => ?_⟩
  rw [Option.mem_def] at hv
  rcases v with _ | v
  · -- some event of the aggregate is above version 0, and the tail is not below that
    by_contra hnone
    refine hne ⟨hv, hlast, htypes, List.ne_nil_of_mem (List.mem_filter.2 ⟨htc, by simp [htf.1]⟩),
      fun d hd v hdv => ?_⟩
    obtain ⟨hd, hid⟩ := List.mem_filter.1 hd
    have hle : sortKey d ≤ sortKey t := hmax hd (by
      simp only [decide_eq_true_eq] at hid
      simp [AggregateEventsQuery.tailFilter, hid, hv])
    rw [Option.mem_def] at hdv
    rcases htv : t.aggregateVersion with _ | w
    · simp [sortKey, hdv, htv] at hle
    · have hw : w = 0 := by
        by_contra hw
        exact hnone ⟨w, htv, Nat.pos_of_ne_zero hw⟩
      simp [sortKey, hdv, htv, hw] at hle
      exact hle
  · rw [hv, Option.all_some] at htf
    simpa [Option.any_eq_true] using htf.2

/-- What is yielded meets the contract, unless all of the aggregate is of version 0, the snapshot
too, and the tail is looked up. -/
theorem getAggregateEvents_meets_iff :
    Meets coll a q (getAggregateEvents coll a q) ↔ ¬ OnlyZero coll a q := by
  constructor
  · rintro hm ⟨hv, hlast, htypes, hsome, hzero⟩
    -- nothing is in range, and the second find has a document
    have hnone : ∀ d, ¬ InRange coll a q d := by
      rintro d ⟨hd, hid, hr⟩
      obtain ⟨w, hw, hlt⟩ := hr 0 hv
      have := hzero d (List.mem_filter.2 ⟨hd, by simp [hid]⟩) w hw
      omega
    have hdocs : sortByVersion (coll.filter (q.filter a)) = [] :=
      List.eq_nil_iff_forall_not_mem.2 fun d hd => hnone d (filter_iff.1 (mem_find.1 hd)).1
    have htail : (sortByVersion (coll.filter (q.tailFilter a))) ≠ [] := by
      obtain ⟨d, hd⟩ := List.exists_mem_of_ne_nil _ hsome
      obtain ⟨hd, hid⟩ := List.mem_filter.1 hd
      refine List.ne_nil_of_mem (mem_find.2 ⟨hd, ?_⟩)
      simp only [decide_eq_true_eq] at hid
      simp [AggregateEventsQuery.tailFilter, hid, hv]
    obtain ⟨l, t, ht⟩ := (List.eq_nil_or_concat' _).resolve_left htail
    refine hnone t ((hm.mem t).1 ?_).1
    simp [getAggregateEvents, hdocs, hlast, htypes, ht]
  · intro hne
    unfold getAggregateEvents
    cases hlast : q.tailLast with
    | false =>
      simpa [hlast] using meets_cursor hk fun d _ h => by simp [hlast] at h
    | true =>
      cases htypes : q.hasTypeFilter with
      | false =>
        have hw : ∀ d, q.wants (A := A) (V := V) d = true := fun d => by
          simp [AggregateEventsQuery.wants, htypes]
        simpa [htypes] using meets_cursor hk fun d _ _ _ => hw d
      | true =>
        simp only [Bool.and_self, if_true]
        rcases ht : (sortByVersion (coll.filter (q.tailFilter a))).getLast? with _ | t
        · have hnone : ∀ d, ¬ InRange coll a q d := fun d hd => by
            rw [List.getLast?_eq_none_iff] at ht
            simpa [ht] using mem_find.2 ⟨hd.1, tailFilter_of_inRange hd⟩
          simpa using meets_cursor hk fun d hd => absurd hd (hnone d)
        · obtain ⟨hr, hmax⟩ := tailDoc_inRange hk hlast htypes hne ht
          simp only [Option.filter, tail_isNew_iff hk hr hmax]
          cases hw : q.wants t with
          | false => simpa using meets_tail hk hr hmax hlast hw
          | true =>
            have hcursor := meets_cursor hk (q := q) (a := a) fun d hd _ hdmax => by
              have heq := Nat.le_antisymm (hmax d hd) (hdmax t hr)
              rw [eq_of_sameKey hk hd.1 hr.1 (by
                simp [sameKey, hd.2.1, hr.2.1, sortKey_inj heq]), hw]
            simpa using hcursor

end Finds

/-- No one else writes. -/
def NoAppend (_ : Reading A V) : ReadingAction A V → Prop
  | .append _ => False
  | _ => True

/-- How far an iteration beside no one is. -/
structure Alone (a : A) (q : AggregateEventsQuery) (s : Reading A V) : Prop where
  keys : s.collection.Pairwise fun d e => ¬ sameKey d e
  cursor : ∀ buffer, s.iteration = .cursor buffer none →
    ∃ rest, sortByVersion (s.collection.filter (q.filter a)) = s.yielded ++ buffer ++ rest
  fetched : ∀ buffer seen, s.iteration = .cursor buffer (some seen) →
    s.yielded ++ buffer = sortByVersion (s.collection.filter (q.filter a))
  ended : ∀ seen, s.iteration = .ended seen →
    s.yielded = sortByVersion (s.collection.filter (q.filter a))
  done : s.iteration = .done → s.yielded = getAggregateEvents s.collection a q

theorem Alone.fetch {s : Reading A V} (h : Alone a q s) {buffer : List (EventDocument A V)}
    (hi : s.iteration = .cursor buffer none) {n : ℕ} {atEnd : Bool}
    (hn : atEnd = true → (s.unfetched a q buffer).length ≤ n) :
    Alone a q { s with
      iteration := .cursor (buffer ++ (s.unfetched a q buffer).take n)
        (if atEnd then some (Reading.stream s.collection a) else none) } := by
  obtain ⟨rest, hrest⟩ := h.cursor buffer hi
  rw [Reading.unfetched_of_sorted (filter_strict h.keys) hrest] at hn ⊢
  refine ⟨h.keys, fun buffer' h => ?_, fun buffer' seen h => ?_, fun seen h => ?_, fun h => ?_⟩ <;>
    cases atEnd <;> cases h
  · exact ⟨rest.drop n, by rw [hrest]; simp⟩
  · rw [List.take_of_length_le (hn rfl), ← List.append_assoc]
    exact hrest.symm

theorem Alone.next {s : Reading A V} (h : Alone a q s) {d : EventDocument A V}
    {buffer : List (EventDocument A V)} {seen : Option (List (EventDocument A V))}
    (hi : s.iteration = .cursor (d :: buffer) seen) :
    Alone a q { s with iteration := .cursor buffer seen, yielded := s.yielded ++ [d] } := by
  refine ⟨h.keys, fun buffer' h' => ?_, fun buffer' seen' h' => ?_, fun seen' h' => ?_,
    fun h' => ?_⟩ <;> cases h'
  · obtain ⟨rest, hrest⟩ := h.cursor _ hi
    exact ⟨rest, by rw [hrest]; simp⟩
  · rw [← h.fetched _ _ hi]
    simp

theorem alone_step {s s' : Reading A V} {act : ReadingAction A V} (h : Alone a q s)
    (hn : NoAppend s act) (hst : Reading.step a q s act = some s') : Alone a q s' := by
  obtain ⟨d, coll, rfl, -⟩ | ⟨n, atEnd, buffer, -, hi, hl, rfl⟩ | ⟨d, buffer, seen, -, hi, rfl⟩ |
    ⟨seen, -, hi, rfl⟩ | ⟨seen, -, hi, rfl⟩ := Reading.step_cases hst
  · exact hn.elim
  · exact h.fetch hi hl
  · exact h.next hi
  · have hy : s.yielded = sortByVersion (s.collection.filter (q.filter a)) := by
      simpa using h.fetched [] seen hi
    exact ⟨h.keys, fun _ hi' => by simp at hi', fun _ _ hi' => by simp at hi', fun _ _ => hy,
      fun hi' => by simp at hi'⟩
  · have hy := h.ended seen hi
    refine ⟨h.keys, fun _ hi' => by simp at hi', fun _ _ hi' => by simp at hi',
      fun _ hi' => by simp at hi', fun _ => ?_⟩
    have htail : ∀ t, s.tailIsNew t = (sortByVersion (s.collection.filter (q.filter a))).getLast?.all
        fun lastDoc => t._id ≠ lastDoc._id := fun t => by rw [Reading.tailIsNew, hy]
    simp only [getAggregateEvents, Reading.tailDoc, funext htail, hy]

/-- An iteration during which no one writes yields what `getAggregateEvents` does. -/
theorem yielded_alone {s : Reading A V} (h : (Reading.machine a q).ReachIf NoAppend s)
    (hd : s.iteration = .done) : s.yielded = getAggregateEvents s.collection a q := by
  refine (h.invariant (P := Alone a q) (fun s h0 => ?_)
    fun _ _ _ h hn hst => alone_step h hn hst).done hd
  obtain ⟨hi, hy, hk⟩ : Reading.Init s := h0
  refine ⟨hk, fun buffer hi' => ?_, fun _ _ hi' => by simp [hi] at hi',
    fun _ hi' => by simp [hi] at hi', fun hi' => by simp [hi] at hi'⟩
  rw [hi] at hi'
  cases hi'
  exact ⟨_, by rw [hy]; rfl⟩

/-- An aggregate's event. -/
def ofVersion (id : ObjectId) (v : ℕ) (type : String) : EventDocument String ℕ :=
  { _id := id, type, aggregateId := some "a", aggregateVersion := some v, payload := 0 }

/-- The one event of an aggregate, of version 0. -/
def founding : EventDocument String ℕ := ofVersion 1 0 "founded"

/-- Its later events of one type, and the tail. -/
def renames (snapshotVersion : ℕ) : AggregateEventsQuery where
  snapshotVersion := some snapshotVersion
  eventTypes := some ["renamed"]
  tailLast := true

/-- Past a snapshot of version 1 two events are yielded, one of them for its version, and the
contract is met. -/
theorem getAggregateEvents_meets_later :
    let coll := [ofVersion 4 3 "moved", ofVersion 2 1 "renamed", founding, ofVersion 3 2 "renamed"]
    getAggregateEvents coll "a" (renames 1) = [ofVersion 3 2 "renamed", ofVersion 4 3 "moved"]
      ∧ Meets coll "a" (renames 1) (getAggregateEvents coll "a" (renames 1)) :=
  ⟨by decide, (getAggregateEvents_meets_iff (by decide)).2 fun h => by simpa [renames] using h.1⟩

/-- Past a snapshot of version 0, the event of version 0 is yielded as the tail. -/
theorem getAggregateEvents_meets_fails :
    ¬ ∀ (coll : List (EventDocument String ℕ)), coll.Pairwise (fun d e => ¬ sameKey d e) →
      ∀ (a : String) (q : AggregateEventsQuery), q.eventTypes ≠ some [] →
        Meets coll a q (getAggregateEvents coll a q) := by
  intro hall
  have hm := hall [founding] (List.pairwise_singleton ..) "a" (renames 0) (by decide)
  obtain ⟨-, -, hr⟩ := ((hm.mem founding).1 (by decide)).1
  obtain ⟨w, hw, hlt⟩ := hr 0 rfl
  obtain rfl : 0 = w := Option.some.inj hw
  exact absurd hlt (Nat.lt_irrefl 0)

end MongoEventStorage

end NodeCqrs
