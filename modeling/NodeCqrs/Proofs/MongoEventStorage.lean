import Mathlib.Data.List.Pairwise
import Mathlib.Data.List.Perm.Basic
import NodeCqrs.Mongo.EventStorage

/-!
# The events collection under its unique indexes

No two documents of a collection share a key, so those of one aggregate differ in their place in
the version order, and sorting them by it commutes with a find's filter (`sortByVersion_filter`)
and with an append past the last one (`sortByVersion_concat`).
-/

namespace NodeCqrs

namespace MongoEventStorage

variable {A V : Type}

theorem sortKey_inj {d e : EventDocument A V} (h : sortKey d = sortKey e) :
    d.aggregateVersion = e.aggregateVersion := by
  rcases hd : d.aggregateVersion with _ | v <;> rcases he : e.aggregateVersion with _ | w <;>
    simp_all [sortKey]

section Keys

variable [DecidableEq A]

theorem sameKey_symm {d e : EventDocument A V} (h : sameKey d e) : sameKey e d := by
  simp only [sameKey, Bool.or_eq_true, Bool.and_eq_true, decide_eq_true_eq] at h ⊢
  rcases h with h | ⟨⟨h1, h2⟩, h3⟩
  · exact .inl h.symm
  · exact .inr ⟨⟨by rwa [← h2, ← h3], h2.symm⟩, h3.symm⟩

theorem sameKey_of_version {d e : EventDocument A V} {a : A} {v : ℕ} (hd : d.aggregateId = some a)
    (he : e.aggregateId = some a) (hdv : d.aggregateVersion = some v)
    (hev : e.aggregateVersion = some v) : sameKey d e := by
  simp [sameKey, hd, he, hdv, hev]

theorem insertOne_eq_some {coll coll' : List (EventDocument A V)} {d : EventDocument A V}
    (h : insertOne coll d = some coll') : coll' = coll ++ [d] ∧ ∀ e ∈ coll, ¬ sameKey d e := by
  unfold insertOne at h
  split_ifs at h with hany
  simp only [Option.some.injEq] at h
  exact ⟨h.symm, fun e he hk => hany (List.any_eq_true.2 ⟨e, he, hk⟩)⟩

/-- An insert keeps the keys apart. -/
theorem pairwise_insertOne {coll coll' : List (EventDocument A V)} {d : EventDocument A V}
    (hk : coll.Pairwise fun d e => ¬ sameKey d e) (h : insertOne coll d = some coll') :
    coll'.Pairwise fun d e => ¬ sameKey d e := by
  obtain ⟨rfl, hd⟩ := insertOne_eq_some h
  refine List.pairwise_append.2 ⟨hk, List.pairwise_singleton .., fun e he f hf => ?_⟩
  rw [List.mem_singleton.1 hf]
  exact fun hs => hd e he (sameKey_symm hs)

theorem eq_of_sameKey {coll : List (EventDocument A V)}
    (hk : coll.Pairwise fun d e => ¬ sameKey d e) {d e : EventDocument A V} (hd : d ∈ coll)
    (he : e ∈ coll) (h : sameKey d e) : d = e := by
  by_contra hne
  have : Std.Symm fun d e : EventDocument A V => ¬ sameKey d e :=
    ⟨fun _ _ h hk => h (sameKey_symm hk)⟩
  exact hk.forall hd he hne h

/-- Documents of one aggregate stand at different places. -/
theorem sortKey_ne {coll : List (EventDocument A V)} {a : A}
    (hk : coll.Pairwise fun d e => ¬ sameKey d e) :
    (ofAggregate coll a).Pairwise fun d e => sortKey d ≠ sortKey e := by
  refine (hk.filter _).imp_of_mem fun {d e} hd he hs heq => ?_
  simp only [ofAggregate, List.mem_filter, decide_eq_true_eq] at hd he
  simp [sameKey, hd.2, he.2, sortKey_inj heq] at hs

end Keys

theorem perm_sortByVersion (docs : List (EventDocument A V)) : (sortByVersion docs).Perm docs :=
  List.perm_insertionSort ..

theorem pairwise_sortByVersion (docs : List (EventDocument A V)) :
    (sortByVersion docs).Pairwise fun d e => sortKey d ≤ sortKey e := by
  have : Std.Total fun d e : EventDocument A V => sortKey d ≤ sortKey e := ⟨fun d e => le_total ..⟩
  have : IsTrans (EventDocument A V) fun d e => sortKey d ≤ sortKey e := ⟨fun _ _ _ => le_trans⟩
  exact List.pairwise_insertionSort ..

theorem sortByVersion_strict {docs : List (EventDocument A V)}
    (h : docs.Pairwise fun d e => sortKey d ≠ sortKey e) :
    (sortByVersion docs).Pairwise fun d e => sortKey d < sortKey e := by
  have hne := ((perm_sortByVersion docs).symm.pairwise_iff fun {d e} h => Ne.symm h).1 h
  exact (pairwise_sortByVersion docs).imp₂ (fun _ _ => lt_of_le_of_ne) hne

/-- A list in the version order is the sort of its permutations. -/
theorem sortByVersion_eq {docs docs' : List (EventDocument A V)} (hp : docs'.Perm docs)
    (h : docs'.Pairwise fun d e => sortKey d < sortKey e) : sortByVersion docs = docs' := by
  have hne : docs.Pairwise fun d e => sortKey d ≠ sortKey e :=
    (hp.pairwise_iff fun {d e} h => Ne.symm h).1 (h.imp fun h => h.ne)
  refine List.Perm.eq_of_pairwise (fun d e _ _ h1 h2 => ?_) (sortByVersion_strict hne) h
    ((perm_sortByVersion docs).trans hp.symm)
  exact absurd h1 (Nat.lt_asymm h2)

theorem sortByVersion_filter {docs : List (EventDocument A V)}
    (h : docs.Pairwise fun d e => sortKey d ≠ sortKey e) (p : EventDocument A V → Bool) :
    sortByVersion (docs.filter p) = (sortByVersion docs).filter p :=
  sortByVersion_eq ((perm_sortByVersion docs).filter p) ((sortByVersion_strict h).filter p)

theorem sortByVersion_concat {docs : List (EventDocument A V)} {d : EventDocument A V}
    (h : docs.Pairwise fun d e => sortKey d ≠ sortKey e)
    (hd : ∀ e ∈ docs, sortKey e < sortKey d) :
    sortByVersion (docs ++ [d]) = sortByVersion docs ++ [d] := by
  refine sortByVersion_eq ((perm_sortByVersion docs).append_right _) ?_
  refine List.pairwise_append.2 ⟨sortByVersion_strict h, List.pairwise_singleton .., ?_⟩
  intro e he f hf
  rw [List.mem_singleton.1 hf]
  exact hd e ((perm_sortByVersion docs).mem_iff.1 he)

end MongoEventStorage

end NodeCqrs
