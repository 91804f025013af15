import NodeCqrs.Mongo.SelectiveRead
import NodeCqrs.Proofs.MongoEventStorage

/-!
# What a selective read yields beside writers

While the cursor is open it has fetched a prefix of the events asked for, and by its last fetch all
of those there were then (`Inv`). The tail is looked up later, in the stream as it is by then, so
the read is of one prefix if and only if none of the events appended between the two, the last one
apart, is asked for (`selectiveRead_iff`).
-/

namespace NodeCqrs

namespace MongoEventStorage

namespace Reading

variable {A V : Type} [DecidableEq A] {a : A} {q : AggregateEventsQuery}

/-- What a step does: it appends an event to the collection, or fetches documents, or hands one out,
or finds none, or yields the tail. -/
theorem step_cases {s s' : Reading A V} {act : ReadingAction A V} (h : step a q s act = some s') :
    (∃ d coll, act = .append d ∧ insertOne s.collection d = some coll
      ∧ (d.aggregateId = some a → ∀ e ∈ ofAggregate s.collection a, sortKey e < sortKey d)
      ∧ s' = { s with collection := coll })
    ∨ (∃ n atEnd buffer, act = .fetch n atEnd ∧ s.iteration = .cursor buffer none
      ∧ (atEnd = true → (s.unfetched a q buffer).length ≤ n)
      ∧ s' = { s with
        iteration := .cursor (buffer ++ (s.unfetched a q buffer).take n)
          (if atEnd then some (stream s.collection a) else none) })
    ∨ (∃ d buffer seen, act = .next ∧ s.iteration = .cursor (d :: buffer) seen
      ∧ s' = { s with iteration := .cursor buffer seen, yielded := s.yielded ++ [d] })
    ∨ (∃ seen, act = .next ∧ s.iteration = .cursor [] (some seen)
      ∧ s' = { s with iteration := .ended seen })
    ∨ (∃ seen, act = .findOne ∧ s.iteration = .ended seen ∧ s' = { s with
        iteration := .done
        yielded := s.yielded ++ (if q.tailLast && q.hasTypeFilter then
          ((s.tailDoc a q).filter s.tailIsNew).toList else []) }) := by
  cases act with
  | append d =>
    simp only [step] at h
    split_ifs at h with hd
    obtain ⟨coll, hc, rfl⟩ := Option.map_eq_some_iff.1 h
    exact .inl ⟨d, coll, rfl, hc, hd, rfl⟩
  | fetch n atEnd =>
    simp only [step] at h
    split at h
    · rename_i buffer hi
      obtain ⟨hend, h⟩ := Option.ite_none_left_eq_some.1 h
      refine .inr (.inl ⟨n, atEnd, buffer, rfl, hi, fun hae => ?_, (Option.some.inj h).symm⟩)
      simpa [hae] using hend
    · simp at h
  | next =>
    simp only [step] at h
    split at h
    · rename_i d buffer seen hi
      cases h
      exact .inr (.inr (.inl ⟨d, buffer, seen, rfl, hi, rfl⟩))
    · rename_i seen hi
      cases h
      exact .inr (.inr (.inr (.inl ⟨seen, rfl, hi, rfl⟩)))
    · simp at h
  | findOne =>
    simp only [step] at h
    split at h
    · rename_i seen hi
      refine .inr (.inr (.inr (.inr ⟨seen, rfl, hi, ?_⟩)))
      split_ifs at h ⊢ with hq <;> simp only [Option.some.injEq] at h <;> simp [← h]
    · simp at h

theorem stream_strict {coll : List (EventDocument A V)}
    (hk : coll.Pairwise fun d e => ¬ sameKey d e) :
    (stream coll a).Pairwise fun d e => sortKey d < sortKey e :=
  sortByVersion_strict (sortKey_ne hk)

/-- An append leaves the stream as it is or puts the event at its end. -/
theorem stream_append {coll coll' : List (EventDocument A V)} {d : EventDocument A V}
    (hk : coll.Pairwise fun d e => ¬ sameKey d e)
    (hd : d.aggregateId = some a → ∀ e ∈ ofAggregate coll a, sortKey e < sortKey d)
    (h : insertOne coll d = some coll') :
    ∃ l, stream coll' a = stream coll a ++ l := by
  obtain ⟨rfl, -⟩ := insertOne_eq_some h
  by_cases ha : d.aggregateId = some a
  · refine ⟨[d], ?_⟩
    unfold stream
    rw [← sortByVersion_concat (sortKey_ne hk) (hd ha)]
    simp [ofAggregate, List.filter_append, ha]
  · exact ⟨[], by simp [stream, ofAggregate, List.filter_append, ha]⟩

section Queries

variable {s : Reading A V}

theorem filter_stream (hk : s.collection.Pairwise fun d e => ¬ sameKey d e)
    (hq : q.snapshotVersion = none) :
    sortByVersion (s.collection.filter (q.filter a)) = (stream s.collection a).filter q.wants := by
  rw [stream, ← sortByVersion_filter (sortKey_ne hk), ofAggregate, List.filter_filter]
  congr 2
  funext d
  simp [AggregateEventsQuery.filter, hq, Bool.and_comm]

theorem tailDoc_eq (hq : q.snapshotVersion = none) :
    s.tailDoc a q = (stream s.collection a).getLast? := by
  unfold tailDoc stream ofAggregate
  congr 3
  funext d
  simp [AggregateEventsQuery.tailFilter, hq]

omit [DecidableEq A] in
/-- Of a sorted list, what is past a part of it is the rest. -/
theorem filter_past {fetched rest : List (EventDocument A V)}
    (hs : (fetched ++ rest).Pairwise fun d e => sortKey d < sortKey e) :
    (fetched ++ rest).filter (fun d => fetched.getLast?.all fun last => sortKey last < sortKey d)
      = rest := by
  rcases fetched.eq_nil_or_concat' with rfl | ⟨l, e, rfl⟩
  · simp
  · obtain ⟨hle, -, hlt⟩ := List.pairwise_append.1 hs
    have hnone : (l ++ [e]).filter (fun d => decide (sortKey e < sortKey d)) = [] := by
      refine List.filter_eq_nil_iff.2 fun d hd => ?_
      rcases List.mem_append.1 hd with hd | hd
      · have := (List.pairwise_append.1 hle).2.2 d hd e (by simp)
        simpa using this.le
      · simp [List.mem_singleton.1 hd]
    have hrest : rest.filter (fun d => decide (sortKey e < sortKey d)) = rest :=
      List.filter_eq_self.2 fun d hd => decide_eq_true (hlt e (by simp) d hd)
    simp only [List.getLast?_concat, Option.all_some]
    rw [List.filter_append, hnone, hrest, List.nil_append]

theorem unfetched_of_sorted {buffer rest : List (EventDocument A V)}
    (hs : (sortByVersion (s.collection.filter (q.filter a))).Pairwise
      fun d e => sortKey d < sortKey e)
    (h : sortByVersion (s.collection.filter (q.filter a)) = s.yielded ++ buffer ++ rest) :
    s.unfetched a q buffer = rest := by
  rw [h] at hs
  rw [unfetched, h]
  exact filter_past hs

/-- The cursor goes on with the events asked for that it has not fetched. -/
theorem unfetched_eq (hk : s.collection.Pairwise fun d e => ¬ sameKey d e)
    (hq : q.snapshotVersion = none) {buffer rest : List (EventDocument A V)}
    (h : (stream s.collection a).filter q.wants = s.yielded ++ buffer ++ rest) :
    s.unfetched a q buffer = rest := by
  rw [← filter_stream hk hq] at h
  exact unfetched_of_sorted (by rw [filter_stream hk hq]; exact (stream_strict hk).filter _) h

end Queries

/-- What has been fetched: a part of the events asked for while the cursor is open, and all that
there were at its last fetch. -/
structure Inv (a : A) (q : AggregateEventsQuery) (s : Reading A V) : Prop where
  keys : s.collection.Pairwise fun d e => ¬ sameKey d e
  cursor : ∀ buffer, s.iteration = .cursor buffer none →
    ∃ rest, (stream s.collection a).filter q.wants = s.yielded ++ buffer ++ rest
  fetched : ∀ buffer seen, s.iteration = .cursor buffer (some seen) →
    s.yielded ++ buffer = seen.filter q.wants ∧ ∃ between, stream s.collection a = seen ++ between
  ended : ∀ seen, s.iteration = .ended seen →
    s.yielded = seen.filter q.wants ∧ ∃ between, stream s.collection a = seen ++ between

theorem inv_init {s : Reading A V} (h : Init s) : Inv a q s := by
  obtain ⟨hi, hy, hk⟩ := h
  refine ⟨hk, fun buffer hc => ?_, fun buffer seen hc => ?_, fun seen hc => ?_⟩ <;>
    simp only [hi, Iteration.cursor.injEq, reduceCtorEq, and_false] at hc
  obtain ⟨rfl, -⟩ := hc
  exact ⟨_, by rw [hy]; rfl⟩

/-- An event that is appended comes after all the cursor has seen. -/
theorem Inv.append {s : Reading A V} (hI : Inv a q s) {d : EventDocument A V}
    {collection : List (EventDocument A V)}
    (hd : d.aggregateId = some a → ∀ e ∈ ofAggregate s.collection a, sortKey e < sortKey d)
    (hc : insertOne s.collection d = some collection) : Inv a q { s with collection } := by
  obtain ⟨l, hl⟩ := stream_append hI.keys hd hc
  refine ⟨pairwise_insertOne hI.keys hc, fun buffer hi => ?_, fun buffer seen hi => ?_,
    fun seen hi => ?_⟩
  · obtain ⟨rest, hrest⟩ := hI.cursor buffer hi
    exact ⟨rest ++ l.filter q.wants, by rw [hl, List.filter_append, hrest, List.append_assoc]⟩
  · obtain ⟨hy, between, hb⟩ := hI.fetched buffer seen hi
    exact ⟨hy, between ++ l, by rw [hl, hb, List.append_assoc]⟩
  · obtain ⟨hy, between, hb⟩ := hI.ended seen hi
    exact ⟨hy, between ++ l, by rw [hl, hb, List.append_assoc]⟩

theorem Inv.fetch {s : Reading A V} (hI : Inv a q s) (hq : q.snapshotVersion = none)
    {buffer : List (EventDocument A V)} (hi : s.iteration = .cursor buffer none) {n : ℕ}
    {atEnd : Bool} (hn : atEnd = true → (s.unfetched a q buffer).length ≤ n) :
    Inv a q { s with
      iteration := .cursor (buffer ++ (s.unfetched a q buffer).take n)
        (if atEnd then some (stream s.collection a) else none) } := by
  obtain ⟨rest, hrest⟩ := hI.cursor buffer hi
  rw [unfetched_eq hI.keys hq hrest] at hn ⊢
  refine ⟨hI.keys, fun buffer' h => ?_, fun buffer' seen h => ?_, fun seen h => ?_⟩ <;>
    cases atEnd <;> cases h
  · exact ⟨rest.drop n, by rw [hrest]; simp⟩
  · rw [List.take_of_length_le (hn rfl), ← List.append_assoc]
    exact ⟨hrest.symm, [], by simp⟩

theorem Inv.next {s : Reading A V} (hI : Inv a q s) {d : EventDocument A V}
    {buffer : List (EventDocument A V)} {seen : Option (List (EventDocument A V))}
    (hi : s.iteration = .cursor (d :: buffer) seen) :
    Inv a q { s with iteration := .cursor buffer seen, yielded := s.yielded ++ [d] } := by
  refine ⟨hI.keys, fun buffer' h => ?_, fun buffer' seen' h => ?_, fun seen' h => ?_⟩ <;> cases h
  · obtain ⟨rest, hrest⟩ := hI.cursor _ hi
    exact ⟨rest, by rw [hrest]; simp⟩
  · obtain ⟨hy, hb⟩ := hI.fetched _ _ hi
    exact ⟨by rw [← hy]; simp, hb⟩

theorem inv_step (hq : q.snapshotVersion = none) {s s' : Reading A V} {act : ReadingAction A V}
    (hI : Inv a q s) (h : step a q s act = some s') : Inv a q s' := by
  obtain ⟨d, coll, -, hc, hd, rfl⟩ | ⟨n, atEnd, buffer, -, hi, hn, rfl⟩ |
    ⟨d, buffer, seen, -, hi, rfl⟩ | ⟨seen, -, hi, rfl⟩ | ⟨seen, -, hi, rfl⟩ := step_cases h
  · exact hI.append hd hc
  · exact hI.fetch hq hi hn
  · exact hI.next hi
  · refine ⟨hI.keys, fun _ h => by simp at h, fun _ _ h => by simp at h, fun seen' h => ?_⟩
    cases h
    simpa using hI.fetched [] seen hi
  · exact ⟨hI.keys, fun _ h => by simp at h, fun _ _ h => by simp at h, fun _ h => by simp at h⟩

theorem inv (hq : q.snapshotVersion = none) {s : Reading A V} (h : (machine a q).Reach s) :
    Inv a q s :=
  h.invariant (P := Inv a q) (fun _ => inv_init) fun _ _ _ hI _ hs => inv_step hq hI hs

omit [DecidableEq A] in
theorem mem_of_mem_view {l : List (EventDocument A V)} {d : EventDocument A V}
    (h : d ∈ view q l) : d ∈ l := by
  rcases List.mem_append.1 h with h | h
  · exact List.mem_of_mem_filter h
  · exact List.mem_of_getLast? (Option.eq_some_of_filter_eq_some (Option.mem_toList.1 h))

/-- Each event asked for whose version a yielded one covers is in the prefix the view is of. -/
theorem Consistent.covers {s : Reading A V} (hk : s.collection.Pairwise fun d e => ¬ sameKey d e)
    (h : Consistent a q s) : Covers a q s := by
  obtain ⟨pre, ⟨rest, hs⟩, hy⟩ := h
  have hst := stream_strict (a := a) hk
  rw [← hs] at hst
  intro d hd hw e he hle
  rw [← hs] at hd
  rw [hy] at he ⊢
  rcases List.mem_append.1 hd with hd | hd
  · exact List.mem_append_left _ (List.mem_filter.2 ⟨hd, hw⟩)
  · exact absurd ((List.pairwise_append.1 hst).2.2 e (mem_of_mem_view he) d hd) (Nat.not_lt.2 hle)

/-- `findOne` compares ids, which tell the documents of a collection apart. -/
theorem tailIsNew_iff {s : Reading A V} (hk : s.collection.Pairwise fun d e => ¬ sameKey d e)
    (hy : ∀ d ∈ s.yielded, d ∈ s.collection) {t : EventDocument A V} (ht : t ∈ s.collection) :
    s.tailIsNew t = true ↔ s.yielded.getLast? ≠ some t := by
  unfold tailIsNew
  rcases hl : s.yielded.getLast? with _ | last
  · simp
  · simp only [Option.all_some, decide_eq_true_eq, ne_eq, Option.some.injEq, not_iff_not]
    refine ⟨fun hid => (eq_of_sameKey hk ht (hy last (List.mem_of_getLast? hl)) ?_).symm,
      fun h => by rw [h]⟩
    simp [sameKey, hid]

/-- The tail is the last event of the stream, yielded once. -/
theorem yielded_tail {s : Reading A V} (hI : Inv a q s) (hq : q.snapshotVersion = none)
    {seen between : List (EventDocument A V)} (hi : s.iteration = .ended seen)
    (hb : stream s.collection a = seen ++ between) :
    s.yielded ++ ((s.tailDoc a q).filter s.tailIsNew).toList
      = if between = [] then view q seen else seen.filter q.wants ++ between.getLast?.toList := by
  obtain ⟨hy, -⟩ := hI.ended seen hi
  have hnd : (seen ++ between).Nodup := hb ▸ (stream_strict hI.keys).imp fun h e => by simp [e] at h
  have hmem : ∀ d ∈ seen ++ between, d ∈ s.collection := fun d hd =>
    List.mem_of_mem_filter ((perm_sortByVersion _).mem_iff.1 (hb ▸ hd : d ∈ stream s.collection a))
  have hnew := fun t ht => tailIsNew_iff hI.keys (s := s) (t := t)
    (fun d hd => hmem d (List.mem_append_left _ (List.mem_of_mem_filter (hy ▸ hd)))) (hmem t ht)
  rw [tailDoc_eq hq, hb, hy]
  rw [hy] at hnew
  rcases between.eq_nil_or_concat' with rfl | ⟨between, t, rfl⟩
  · simp only [List.append_nil, if_true] at hnd hnew ⊢
    rcases seen.eq_nil_or_concat' with rfl | ⟨l, t, rfl⟩
    · rfl
    · have htl : t ∉ l := fun h => (List.nodup_append.1 hnd).2.2 t h t (by simp) rfl
      have hl : (l.filter q.wants).getLast? ≠ some t :=
        fun h => htl (List.mem_of_mem_filter (List.mem_of_getLast? h))
      have := hnew t (by simp)
      by_cases hw : q.wants t <;>
        simp_all [view, List.filter_append, Option.filter_some]
  · have hts : t ∉ seen := fun h => (List.nodup_append.1 hnd).2.2 t h t (by simp) rfl
    have := (hnew t (by simp)).2 fun h => hts (List.mem_of_mem_filter (List.mem_of_getLast? h))
    simp [← List.append_assoc, Option.filter_some, this]

/-- The step that ends the iteration. -/
theorem consistent_iff {s s' : Reading A V} (hI : Inv a q s) (hq : q.snapshotVersion = none)
    (ht : q.tailLast = true) {seen between : List (EventDocument A V)}
    (hi : s.iteration = .ended seen) (hb : stream s.collection a = seen ++ between)
    (h : step a q s .findOne = some s') :
    Consistent a q s' ↔ (q.hasTypeFilter = true → ∀ d ∈ between.dropLast, q.wants d = false) := by
  obtain ⟨d, coll, h, -⟩ | ⟨n, atEnd, buffer, h, -⟩ | ⟨d, buffer, seen', h, -⟩ | ⟨seen', h, -⟩ |
    ⟨seen', -, hi', rfl⟩ := step_cases h <;> try cases h
  have hy := yielded_tail hI hq hi hb
  obtain ⟨hseen, -⟩ := hI.ended seen hi
  unfold Consistent
  simp only [ht, Bool.true_and]
  split_ifs with hf
  · rw [hy, hb]
    simp only [hf, true_imp_iff]
    rcases between.eq_nil_or_concat' with rfl | ⟨between, t, rfl⟩
    · simpa using ⟨seen, List.prefix_rfl, rfl⟩
    · have hnd : (seen ++ (between ++ [t])).Nodup :=
        hb ▸ (stream_strict hI.keys).imp fun h e => by simp [e] at h
      simp only [List.append_eq_nil_iff, List.cons_ne_nil, and_false, if_false,
        List.getLast?_concat, Option.toList_some, List.dropLast_concat, ← List.append_assoc]
        at hnd ⊢
      obtain ⟨-, -, hlast⟩ := List.nodup_append.1 hnd
      constructor
      · rintro ⟨pre, hpre, hv⟩ d hd
        have htp : t ∈ pre := mem_of_mem_view (q := q) (by rw [← hv]; simp)
        -- the tail is the last event of the stream, so the prefix it is in is all of it
        obtain rfl | hpre := List.prefix_concat_iff.1 hpre
        · by_contra hw
          have hdv : d ∈ seen.filter q.wants ++ [t] := by
            rw [hv]
            exact List.mem_append_left _ (List.mem_filter.2 ⟨by simp [hd], by simpa using hw⟩)
          rcases List.mem_append.1 hdv with h | h
          · have hsb := List.nodup_append.1 (List.nodup_append.1 hnd).1
            exact hsb.2.2 d (List.mem_of_mem_filter h) d hd rfl
          · exact hlast d (by simp [hd]) t (by simp) (List.mem_singleton.1 h)
        · exact absurd rfl (hlast t (hpre.subset htp) t (by simp))
      · intro hno
        refine ⟨_, List.prefix_rfl, ?_⟩
        have : between.filter q.wants = [] :=
            List.filter_eq_nil_iff.2 fun d hd => by simp [hno d hd]
        by_cases hw : q.wants t <;>
          simp [view, List.filter_append, this, hw, Option.filter_some]
  · have hall : ∀ d : EventDocument A V, q.wants d = true := fun d => by
      simp [AggregateEventsQuery.wants, hf]
    simp only [hf, Bool.false_eq_true, false_imp_iff, iff_true, List.append_nil, hseen, hb]
    exact ⟨seen, List.prefix_append .., by simp [view, hall]⟩

/-- A read of the events of some types with the last one for its version: it is the view of one
prefix of the stream, and no version covers an event it did not receive, if and only if of the
events appended since the cursor's last fetch only the last may be of one of the types. -/
theorem selectiveRead_iff {eventTypes : List String} {s s' : Reading A V}
    {seen between : List (EventDocument A V)}
    (hr : (machine a { eventTypes := some eventTypes, tailLast := true }).Reach s)
    (hi : s.iteration = .ended seen) (hb : stream s.collection a = seen ++ between)
    (h : step a { eventTypes := some eventTypes, tailLast := true } s .findOne = some s') :
    Consistent a { eventTypes := some eventTypes, tailLast := true } s'
        ∧ Covers a { eventTypes := some eventTypes, tailLast := true } s'
      ↔ ∀ d ∈ between.dropLast, d.type ∉ eventTypes := by
  have hI := inv rfl hr
  have hk := (inv_step rfl hI h).keys
  rw [and_iff_left_of_imp (Consistent.covers hk), consistent_iff hI rfl rfl hi hb h]
  by_cases ht : eventTypes = []
  · simp [AggregateEventsQuery.hasTypeFilter, ht]
  · simp [AggregateEventsQuery.hasTypeFilter, AggregateEventsQuery.wants, ht]

section Runs

def versioned (id : ObjectId) (v : ℕ) (type : String) : EventDocument String Unit :=
  { _id := id, type, aggregateId := some "a", aggregateVersion := some v, payload := () }

/-- An aggregate with one event, about to be read. -/
def oneEvent : Reading String Unit := { collection := [versioned 0 0 "changed"] }

theorem init_oneEvent {q : AggregateEventsQuery} : (machine "a" q).Init oneEvent :=
  ⟨rfl, rfl, List.pairwise_singleton ..⟩

/-- One event of a type that is not asked for lands while what was fetched is handed out. -/
theorem selectiveRead_iff_noted : ∃ s' : Reading String Unit,
    s'.yielded = [versioned 0 0 "changed", versioned 1 1 "noted"]
      ∧ (Consistent "a" { eventTypes := some ["changed"], tailLast := true } s'
          ∧ Covers "a" { eventTypes := some ["changed"], tailLast := true } s'
        ↔ ∀ d ∈ [versioned 1 1 "noted"].dropLast, d.type ∉ ["changed"]) := by
  obtain ⟨s, hs⟩ : ∃ s, (machine "a" { eventTypes := some ["changed"], tailLast := true }).run
      oneEvent [.fetch 101 true, .next, .append (versioned 1 1 "noted"), .next] = some s :=
    ⟨_, rfl⟩
  have hr := Machine.reach_of_run init_oneEvent hs
  cases hs
  exact ⟨_, by decide, selectiveRead_iff hr rfl (by decide) rfl⟩

/-- A `changed` event and then another land between the cursor's last fetch and the lookup: the
aggregate gets the version of the second without the first. -/
theorem selectiveRead_fails : ¬ ∀ (eventTypes : List String) (s : Reading String Unit),
    (machine "a" { eventTypes := some eventTypes, tailLast := true }).Reach s →
      s.iteration = .done →
        Consistent "a" { eventTypes := some eventTypes, tailLast := true } s
          ∧ Covers "a" { eventTypes := some eventTypes, tailLast := true } s := by
  intro hall
  obtain ⟨s, hs⟩ : ∃ s, (machine "a" { eventTypes := some ["changed"], tailLast := true }).run
      oneEvent [.fetch 101 true, .next, .next, .append (versioned 1 1 "changed"),
        .append (versioned 2 2 "noted"), .findOne] = some s := ⟨_, rfl⟩
  have hr := Machine.reach_of_run init_oneEvent hs
  cases hs
  have hc := (hall ["changed"] _ hr rfl).2 (versioned 1 1 "changed") (by decide) (by decide)
    (versioned 2 2 "noted") (by decide) (by decide)
  exact absurd hc (by decide)

end Runs

end Reading

end MongoEventStorage

end NodeCqrs
