import NodeCqrs.Mongo.SagaEvents
import NodeCqrs.Proofs.EventStorages
import NodeCqrs.Proofs.MongoCatchUp
import NodeCqrs.Proofs.SagaId

/-!
# What a saga is restored from, by id

`getSagaEvents` takes the events whose ids lie between those of the origin event and of the other,
and a process fixes an id before it inserts. So each saga is restored from all its events just when
they are inserted in the order of their ids (`sagasComplete_iff`).
-/

namespace NodeCqrs

theorem hexNumber_concat (digits : List Char) (n : ℕ) (h : n < 16) :
    hexNumber (digits ++ [Nat.digitChar n]) = n + 16 * hexNumber digits := by
  simp [hexNumber, (hexValue_digitChar n h).1, Nat.ofDigits_cons]

theorem hexNumber_hexDigits : ∀ width n, hexNumber (hexDigits width n) = n % 16 ^ width
  | 0, n => by simp [hexDigits, hexNumber, Nat.mod_one]
  | width + 1, n => by
    rw [hexDigits, hexNumber_concat _ _ (Nat.mod_lt n (by decide)), hexNumber_hexDigits,
      pow_succ', Nat.mod_mul]

theorem isHexId_toHexString (id : ObjectId) : IsHexId (toHexString id) := by
  have hdigits : ∀ width n, (hexDigits width n).length = width
      ∧ ∀ c ∈ hexDigits width n, c ∈ "0123456789abcdef".toList := by
    intro width
    induction width with
    | zero => simp [hexDigits]
    | succ width ih =>
      intro n
      obtain ⟨hlen, hc⟩ := ih (n / 16)
      refine ⟨by simp [hexDigits, hlen], fun c hmem => ?_⟩
      rcases List.mem_append.1 hmem with hmem | hmem
      · exact hc c hmem
      · obtain rfl := List.mem_singleton.1 hmem
        exact (hexValue_digitChar _ (Nat.mod_lt n (by decide))).2
  obtain ⟨hlen, hc⟩ := hdigits 24 id.val
  exact ⟨by rw [← String.length_toList, toHexString, String.toList_ofList, hlen],
    by rwa [toHexString, String.toList_ofList]⟩

theorem toObjectId_toHexString (id : ObjectId) : toObjectId (toHexString id) = some id := by
  rw [(isHexId_toHexString id).toObjectId, hexObjectId, toHexString, String.toList_ofList,
    hexNumber_hexDigits]
  have hlt : id.val % 16 ^ 24 = id.val := Nat.mod_eq_of_lt id.isLt
  rw [hlt]
  exact congrArg some (Fin.ofNat_val_eq_self id)

theorem toHexString_inj {id id' : ObjectId} (h : toHexString id = toHexString id') : id = id' := by
  have := (toObjectId_toHexString id).symm.trans ((congrArg toObjectId h).trans
    (toObjectId_toHexString id'))
  exact Option.some.inj this

namespace MongoEventStorage

variable {V : Type}

theorem ofSaga_eq_true_iff {sagaDescriptor originEventId : String}
    {originObjectId beforeObjectId : ObjectId} {d : Doc V} :
    ofSaga sagaDescriptor originEventId originObjectId beforeObjectId d = true ↔
      '.' ∉ sagaDescriptor.toList ∧ d.sagaOrigin sagaDescriptor = some originEventId
        ∧ originObjectId < d._id ∧ d._id < beforeObjectId := by
  unfold ofSaga sagaOriginAt
  split
  · simp [*]
  · simp [*, and_assoc]

/-- The origin event is none of the others. -/
theorem filter_saga_perm {coll : List (Doc V)} (hids : (coll.map (·._id)).Nodup)
    {origin : Doc V} (horigin : origin ∈ coll) (sagaDescriptor originEventId : String)
    (beforeObjectId : ObjectId) :
    (coll.filter fun doc => doc._id = origin._id
      || ofSaga sagaDescriptor originEventId origin._id beforeObjectId doc).Perm
      (origin :: coll.filter (ofSaga sagaDescriptor originEventId origin._id beforeObjectId)) := by
  have hown : ofSaga sagaDescriptor originEventId origin._id beforeObjectId origin = false := by
    simp [ofSaga]
  obtain ⟨l, l', rfl⟩ := List.append_of_mem horigin
  rw [List.map_append, List.map_cons, List.nodup_middle, List.nodup_cons, List.mem_append] at hids
  have hne : ∀ l'' : List (Doc V), origin._id ∉ l''.map (·._id) →
      l''.filter (fun doc => doc._id = origin._id
        || ofSaga sagaDescriptor originEventId origin._id beforeObjectId doc)
      = l''.filter (ofSaga sagaDescriptor originEventId origin._id beforeObjectId) := by
    intro l'' hl
    refine List.filter_congr fun d hd => ?_
    have hdne : d._id ≠ origin._id := fun he => hl (he ▸ List.mem_map_of_mem hd)
    simp [hdne]
  rw [List.filter_append, List.filter_append, List.filter_cons_of_pos (by simp),
    List.filter_cons_of_neg (by simp [hown]), hne l fun h => hids.1 (.inl h),
    hne l' fun h => hids.1 (.inr h)]
  exact List.perm_middle

theorem findSagaEvents_eq {coll : List (Doc V)} (hids : (coll.map (·._id)).Nodup)
    {origin : Doc V} (horigin : origin ∈ coll) (sagaDescriptor originEventId : String)
    (beforeObjectId : ObjectId) :
    ∃ rest, findSagaEvents coll sagaDescriptor originEventId origin._id beforeObjectId
        = origin :: rest ∧
      rest.Perm (coll.filter (ofSaga sagaDescriptor originEventId origin._id beforeObjectId)) := by
  have hperm := (List.perm_insertionSort (fun d e : Doc V => d._id ≤ e._id) _).trans
    (filter_saga_perm hids horigin sagaDescriptor originEventId beforeObjectId)
  have hsorted : (findSagaEvents coll sagaDescriptor originEventId origin._id
      beforeObjectId).Pairwise fun d e => d._id ≤ e._id := by
    have : Std.Total fun d e : Doc V => d._id ≤ e._id := ⟨fun d e => le_total d._id e._id⟩
    have : IsTrans (Doc V) fun d e => d._id ≤ e._id := ⟨fun _ _ _ => le_trans⟩
    exact List.pairwise_insertionSort _ _
  change (findSagaEvents coll sagaDescriptor originEventId origin._id beforeObjectId).Perm _
    at hperm
  rcases hs : findSagaEvents coll sagaDescriptor originEventId origin._id beforeObjectId
    with _ | ⟨first, rest⟩
  · rw [hs] at hperm
    cases hperm.length_eq
  · rw [hs] at hperm hsorted
    obtain rfl : first = origin := by
      rcases List.mem_cons.1 (hperm.subset List.mem_cons_self) with he | hfirst
      · exact he
      · -- an event of the saga first would not be past the origin event
        have hlt : origin._id < first._id :=
          (ofSaga_eq_true_iff.1 (List.mem_filter.1 hfirst).2).2.2.1
        rcases List.mem_cons.1 (hperm.symm.subset List.mem_cons_self) with he | horigin'
        · exact he.symm
        · exact absurd hlt (not_lt.2 ((List.pairwise_cons.1 hsorted).1 _ horigin'))
    exact ⟨rest, rfl, hperm.cons_inv⟩

theorem findById_ne_none {coll : List (Doc V)} {d : Doc V} (hd : d ∈ coll) :
    findById coll d._id ≠ none := by
  rw [findById, ne_eq, List.find?_eq_none]
  exact fun h => h d hd (by simp)

/-- What `getSagaEvents` yields, with the origin event and the other stored. -/
theorem getSagaEvents_eq {coll : List (Doc V)} {origin e : Doc V} (horigin : origin ∈ coll)
    (he : e ∈ coll) {sagaDescriptor sagaId : String}
    (hsaga : e.sagaOrigin sagaDescriptor = some (toHexString origin._id))
    (hid : makeSagaId sagaDescriptor (toHexString origin._id) = .ok sagaId) :
    getSagaEvents coll sagaId (toEvent e) = .ok ((findSagaEvents coll sagaDescriptor
      (toHexString origin._id) origin._id e._id).map toEvent) := by
  have hcolon : ':' ∉ (toHexString origin._id).toList := fun hc =>
    (separator_of_mem ':' ((isHexId_toHexString origin._id).2 _ hc)).2 rfl
  have hne : toHexString e._id ≠ "" := (isHexId_toHexString e._id).ne_empty
  have hsaga' : (toEvent e).sagaOrigin sagaDescriptor = some (toHexString origin._id) := hsaga
  have hbefore : (toEvent e).id.getD "" = toHexString e._id := rfl
  simp [getSagaEvents, hbefore, assertString, hne, parseSagaId_makeSagaId hid hcolon, hsaga',
    objectIdOrThrow, toObjectId_toHexString, findById_ne_none horigin, findById_ne_none he, bind,
    Except.bind, pure, Except.pure]

namespace Writers

/-- Of two events of one saga, in the order they were inserted in, the second is restored with the
first. -/
def Restores (d e : Doc V) : Prop :=
  ∀ sagaDescriptor originEventId, sagaDescriptor ≠ "" →
    e.sagaOrigin sagaDescriptor = some originEventId →
    d.sagaOrigin sagaDescriptor = some originEventId →
    '.' ∉ sagaDescriptor.toList ∧ ∀ originObjectId, toHexString originObjectId = originEventId →
      originObjectId < d._id ∧ d._id < e._id

/-- Ids are not used twice, and the origin event of a saga is before its events. -/
structure SagaInv (s : Writers StoredId V) : Prop where
  nodup : (s.collection.map (·._id)).Nodup
  origin : ∀ before e after, s.collection = before ++ e :: after →
    ∀ sagaDescriptor originEventId, e.sagaOrigin sagaDescriptor = some originEventId →
      ∃ origin ∈ before, toHexString origin._id = originEventId

variable {s s' : Writers StoredId V}

/-- The events of a saga by the filter are those that were inserted before. -/
theorem filter_ofSaga {before after : List (Doc V)} {e : Doc V}
    (hr : (before ++ e :: after).Pairwise Restores) {sagaDescriptor : String}
    {originObjectId : ObjectId} (hd : sagaDescriptor ≠ "")
    (hsaga : e.sagaOrigin sagaDescriptor = some (toHexString originObjectId)) :
    (before ++ e :: after).filter
        (ofSaga sagaDescriptor (toHexString originObjectId) originObjectId e._id)
      = before.filter fun d => d.sagaOrigin sagaDescriptor = some (toHexString originObjectId) := by
  obtain ⟨-, hcons, hbefore⟩ := List.pairwise_append.1 hr
  have hafter := (List.pairwise_cons.1 hcons).1
  have hpre : ∀ d ∈ before, ofSaga sagaDescriptor (toHexString originObjectId) originObjectId
      e._id d = decide (d.sagaOrigin sagaDescriptor = some (toHexString originObjectId)) := by
    intro d hmem
    rw [Bool.eq_iff_iff, ofSaga_eq_true_iff, decide_eq_true_eq]
    refine ⟨fun h => h.2.1, fun ho => ?_⟩
    obtain ⟨hdot, hlt⟩ := hbefore d hmem e List.mem_cons_self _ _ hd hsaga ho
    exact ⟨hdot, ho, hlt originObjectId rfl⟩
  have hpost : ∀ d ∈ e :: after, ¬ ofSaga sagaDescriptor (toHexString originObjectId)
      originObjectId e._id d = true := by
    intro d hmem hof
    obtain ⟨-, ho, -, hlt⟩ := ofSaga_eq_true_iff.1 hof
    rcases List.mem_cons.1 hmem with rfl | hmem
    · exact lt_irrefl _ hlt
    · exact lt_asymm hlt ((hafter d hmem _ _ hd ho hsaga).2 originObjectId rfl).2
  rw [List.filter_append, List.filter_congr hpre, List.filter_eq_nil_iff.2 hpost, List.append_nil]

theorem sagasComplete_iff_pairwise (h : SagaInv s) :
    SagasComplete s ↔ s.collection.Pairwise Restores := by
  constructor
  · intro hc
    refine pairwise_iff_split.2 fun before d after hs e he sagaDescriptor originEventId hd hsaga
      hsaga' => ?_
    obtain ⟨l, l', rfl⟩ := List.append_of_mem he
    have hsplit : s.collection = (before ++ d :: l) ++ e :: l' := by simp [hs]
    obtain ⟨starter, -, hstarter⟩ := h.origin _ e l' hsplit _ _ hsaga
    have hid : makeSagaId sagaDescriptor originEventId
        = .ok (sagaDescriptor ++ ":" ++ originEventId) := by
      have ho : originEventId ≠ "" := hstarter ▸ (isHexId_toHexString starter._id).ne_empty
      simp [makeSagaId, assertString, hd, ho, bind, Except.bind, pure, Except.pure]
    obtain ⟨origin, horigin, rfl, rest, hget, hperm⟩ := hc _ e l' hsplit _ _ _ hsaga hid
    obtain ⟨rest', hfind, hperm'⟩ := findSagaEvents_eq h.nodup horigin sagaDescriptor
      (toHexString origin._id) e._id
    rw [getSagaEvents_eq horigin (by simp [hsplit]) hsaga hid, hfind, List.map_cons] at hget
    obtain rfl := (List.cons.inj (Except.ok.inj hget)).2
    -- the first event is among those yielded, so it has passed the filter
    have hd' : toEvent d ∈ rest'.map toEvent := by
      refine hperm.symm.subset (List.mem_map_of_mem (List.mem_filter.2 ⟨by simp, ?_⟩))
      exact decide_eq_true hsaga'
    obtain ⟨d', hmem, hde⟩ := List.mem_map.1 hd'
    have hdid : d'._id = d._id := toHexString_inj (Option.some.inj (congrArg Event.id hde))
    have hof := (List.mem_filter.1 (hperm'.subset hmem)).2
    rw [ofSaga_eq_true_iff, hdid] at hof
    exact ⟨hof.1, fun _ ho => toHexString_inj ho ▸ hof.2.2⟩
  · intro hr before e after hs sagaDescriptor originEventId sagaId hsaga hid
    obtain ⟨origin, horigin, rfl⟩ := h.origin before e after hs _ _ hsaga
    have hmem : origin ∈ s.collection := by simp [hs, horigin]
    have he : e ∈ s.collection := by simp [hs]
    refine ⟨origin, hmem, rfl, ?_⟩
    obtain ⟨rest, hfind, hperm⟩ := findSagaEvents_eq h.nodup hmem sagaDescriptor
      (toHexString origin._id) e._id
    refine ⟨rest.map toEvent, ?_, ?_⟩
    · rw [getSagaEvents_eq hmem he hsaga hid, hfind, List.map_cons]
    · rw [hs] at hperm hr
      rw [filter_ofSaga hr (makeSagaId_ok hid).1 hsaga] at hperm
      exact hperm.map toEvent

theorem sagaInv_step {act : WriterAction StoredId V} (h : SagaInv s) (hc : Causal s act)
    (hst : step s act = some s') : SagaInv s' := by
  cases act with
  | getNewId p id =>
    simp only [step] at hst
    split_ifs at hst
    obtain rfl := Option.some.inj hst
    exact ⟨h.nodup, h.origin⟩
  | insertOne p e =>
    simp only [step] at hst
    split_ifs at hst
    obtain rfl := Option.some.inj hst
    by_cases hk : s.collection.any (sameKey e) = true
    · simp only [insertOne, hk, if_true, Option.getD_none]
      exact ⟨h.nodup, h.origin⟩
    · simp only [insertOne, hk]
      have hfresh : e._id ∉ s.collection.map (·._id) := by
        intro hmem
        obtain ⟨d, hd, hid⟩ := List.mem_map.1 hmem
        exact hk (List.any_eq_true.2 ⟨d, hd, by simp [sameKey, hid]⟩)
      refine ⟨?_, fun before e' after hs sagaDescriptor originEventId hsaga => ?_⟩
      · show ((s.collection ++ [e]).map (·._id)).Nodup
        rw [List.map_append, List.nodup_append]
        refine ⟨h.nodup, List.nodup_singleton _, ?_⟩
        rintro id hid id' hid' rfl
        obtain rfl : id = e._id := List.mem_singleton.1 hid'
        exact hfresh hid
      · rcases List.eq_nil_or_concat after with rfl | ⟨after, e'', rfl⟩
        · obtain ⟨rfl, he⟩ := List.append_inj' hs rfl
          obtain rfl := (List.cons.inj he).1
          exact hc _ _ hsaga
        · have hs' : s.collection ++ [e] = (before ++ e' :: after) ++ [e''] := by simpa using hs
          obtain ⟨hs', -⟩ := List.append_inj' hs' rfl
          exact h.origin before e' after hs' _ _ hsaga

theorem restores_step {act : WriterAction StoredId V} (hc : Causal s act)
    (hst : step s act = some s') :
    s'.collection.Pairwise Restores ↔ s.collection.Pairwise Restores ∧ SagaInOrder s act := by
  cases act with
  | getNewId p id =>
    simp only [step] at hst
    split_ifs at hst
    obtain rfl := Option.some.inj hst
    simp [SagaInOrder]
  | insertOne p e =>
    simp only [step] at hst
    split_ifs at hst
    obtain rfl := Option.some.inj hst
    by_cases hk : s.collection.any (sameKey e) = true
    · simp [SagaInOrder, insertOne, hk]
    · have hnew : SagaInOrder s (.insertOne p e) ↔ ∀ d ∈ s.collection, Restores d e := by
        constructor
        · intro ho d hd sagaDescriptor originEventId hne hsaga hsaga'
          obtain ⟨origin, horigin, rfl⟩ := hc _ _ hsaga
          obtain ⟨hdot, hlt⟩ := ho (by simp [insertOne, hk]) _ _ hne hsaga origin horigin rfl d hd
            hsaga'
          exact ⟨hdot, fun _ he => toHexString_inj he ▸ hlt⟩
        · intro hr _ sagaDescriptor originEventId hne hsaga origin _ ho d hd hsaga'
          obtain ⟨hdot, hlt⟩ := hr d hd _ _ hne hsaga hsaga'
          exact ⟨hdot, hlt origin._id ho⟩
      simp [hnew, insertOne, hk, List.pairwise_append]

theorem sagaInv_run {l : List (WriterAction StoredId V)} (hi : SagaInv s)
    (hc : machine.Along Causal s l) (h : machine.run s l = some s') : SagaInv s' :=
  Machine.run_invariant (C := Causal) (I := SagaInv)
    (fun _ _ _ hi hc ht => sagaInv_step hi hc ht) hi hc h

theorem restores_run {l : List (WriterAction StoredId V)} (hi : SagaInv s)
    (hc : machine.Along Causal s l) (h : machine.run s l = some s') :
    s'.collection.Pairwise Restores ↔
      s.collection.Pairwise Restores ∧ machine.Along SagaInOrder s l :=
  Machine.run_iff (C := Causal) (I := SagaInv) (P := fun s => s.collection.Pairwise Restores)
    (fun _ _ _ hi hc ht => sagaInv_step hi hc ht) (fun _ _ _ _ hc ht => restores_step hc ht) hi hc h

theorem sagaInv_init (h0 : machine.Init s) : SagaInv s := by
  constructor
  · simp [h0.2.2]
  · intro before e after hs
    simp [h0.2.2] at hs

/-- At the end of a run in which the events of a saga follow its origin event, each of them is
restored from all that were inserted before it if and only if they were inserted in the order of
their ids. -/
theorem sagasComplete_iff {l : List (WriterAction StoredId V)} (h0 : machine.Init s)
    (hc : machine.Along Causal s l) (hr : machine.run s l = some s') :
    SagasComplete s' ↔ machine.Along SagaInOrder s l := by
  have hi := sagaInv_init h0
  rw [sagasComplete_iff_pairwise (sagaInv_run hi hc hr), restores_run hi hc hr, h0.2.2]
  exact and_iff_right .nil

section Runs

def noDocuments : Writers StoredId Unit := { taken := fun _ => [], issued := [], collection := [] }

def started : Doc Unit := { _id := 1, type := "started", payload := () }

/-- An event of the saga that event 1 starts. -/
def advanced (id : ObjectId) : Doc Unit :=
  { _id := id, type := "advanced", sagaOrigins := some [("saga", toHexString 1)], payload := () }

theorem sagaOrigin_advanced {id : ObjectId} {sagaDescriptor originEventId : String}
    (h : (advanced id).sagaOrigin sagaDescriptor = some originEventId) :
    originEventId = toHexString 1 := by
  simp only [EventDocument.sagaOrigin, advanced, Option.bind_some, List.lookup_cons] at h
  split at h
  · exact (Option.some.inj h).symm
  · cases h

/-- After event 1 the events of its saga may follow. -/
theorem along_causal : ∀ {l : List (WriterAction StoredId Unit)} {s : Writers StoredId Unit},
    started ∈ s.collection → (∀ p e, WriterAction.insertOne p e ∈ l → ∃ id, e = advanced id) →
    machine.Along Causal s l
  | [], _, _, _ => trivial
  | .getNewId p id :: l, s, hs, hl => by
    refine ⟨trivial, fun s' hst => along_causal ?_ fun p e he => hl p e (by simp [he])⟩
    simp only [machine, step] at hst
    split_ifs at hst
    obtain rfl := Option.some.inj hst
    exact hs
  | .insertOne p e :: l, s, hs, hl => by
    obtain ⟨id, rfl⟩ := hl p e (by simp)
    refine ⟨fun _ _ ho => ⟨started, hs, (sagaOrigin_advanced ho).symm⟩, fun s' hst =>
      along_causal ?_ fun p e he => hl p e (by simp [he])⟩
    simp only [machine, step] at hst
    split_ifs at hst
    obtain rfl := Option.some.inj hst
    unfold insertOne
    split_ifs
    · exact hs
    · exact List.mem_append_left _ hs

theorem along_causal_started {l : List (WriterAction StoredId Unit)}
    (hl : ∀ p e, WriterAction.insertOne p e ∈ l → ∃ id, e = advanced id) :
    machine.Along Causal noDocuments (.getNewId 0 1 :: .insertOne 0 started :: l) := by
  refine ⟨trivial, fun s hs => ⟨fun _ _ ho => ?_, fun s' hs' => along_causal ?_ hl⟩⟩
  · cases ho
  · cases hs
    cases hs'
    exact List.mem_singleton_self _

theorem sagaInOrder_advanced {s : Writers StoredId Unit} {p : ℕ} {id : ObjectId}
    (h : ∀ d ∈ s.collection, d = started ∨ ∃ id', d = advanced id' ∧ 1 < id' ∧ id' < id) :
    SagaInOrder s (.insertOne p (advanced id)) := by
  intro _ sagaDescriptor originEventId _ hsaga origin _ horigin d hd hsaga'
  rcases h d hd with rfl | ⟨id', rfl, h1, h2⟩
  · cases hsaga'
  · obtain rfl : sagaDescriptor = "saga" := by
      simp only [EventDocument.sagaOrigin, advanced, Option.bind_some, List.lookup_cons] at hsaga
      split at hsaga
      · rename_i heq
        exact eq_of_beq heq
      · cases hsaga
    have hone : origin._id = 1 := toHexString_inj (horigin.trans (sagaOrigin_advanced hsaga))
    exact ⟨by simp, hone ▸ h1, h2⟩

/-- Two processes that insert in the order of their ids. -/
theorem sagasComplete_iff_inserted : ∃ s, machine.run noDocuments [.getNewId 0 1, .insertOne 0 started,
      .getNewId 1 2, .insertOne 1 (advanced 2), .getNewId 0 3, .insertOne 0 (advanced 3)] = some s
    ∧ s.collection = [started, advanced 2, advanced 3] ∧ SagasComplete s := by
  obtain ⟨s, hs, hc⟩ : ∃ s, machine.run noDocuments [.getNewId 0 1, .insertOne 0 started,
      .getNewId 1 2, .insertOne 1 (advanced 2), .getNewId 0 3, .insertOne 0 (advanced 3)] = some s
    ∧ s.collection = [started, advanced 2, advanced 3] := ⟨_, rfl, rfl⟩
  have hcausal := along_causal_started (l := [.getNewId 1 2, .insertOne 1 (advanced 2),
    .getNewId 0 3, .insertOne 0 (advanced 3)]) fun p e he => by
      simp only [List.mem_cons, reduceCtorEq, WriterAction.insertOne.injEq, false_or,
        List.not_mem_nil, or_false] at he
      rcases he with ⟨-, he⟩ | ⟨-, he⟩
      · exact ⟨2, he⟩
      · exact ⟨3, he⟩
  refine ⟨s, hs, hc, (sagasComplete_iff ⟨fun _ => rfl, rfl, rfl⟩ hcausal hs).2 ?_⟩
  refine ⟨trivial, fun s₁ h₁ => ⟨fun _ _ _ _ ho => (by cases ho), fun s₂ h₂ =>
    ⟨trivial, fun s₃ h₃ => ⟨sagaInOrder_advanced ?_, fun s₄ h₄ =>
      ⟨trivial, fun s₅ h₅ => ⟨sagaInOrder_advanced ?_, fun _ _ => trivial⟩⟩⟩⟩⟩⟩
  · cases h₁
    cases h₂
    cases h₃
    exact fun d hd => .inl (List.mem_singleton.1 (show d ∈ [started] from hd))
  · cases h₁
    cases h₂
    cases h₃
    cases h₄
    cases h₅
    intro d hd
    rcases List.mem_cons.1 (show d ∈ [started, advanced 2] from hd) with rfl | hd
    · exact .inl rfl
    · exact .inr ⟨2, List.mem_singleton.1 hd, by decide, by decide⟩

/-- A process whose clock is ahead inserts event 5 of the saga; the other process then takes id 3
for the next one, which is restored without it. -/
theorem sagasComplete_fails :
    ¬ ∀ s : Writers StoredId Unit, machine.ReachIf Causal s → SagasComplete s := by
  intro hall
  obtain ⟨s, hs, hc⟩ : ∃ s, machine.run noDocuments [.getNewId 0 1, .insertOne 0 started,
      .getNewId 1 5, .insertOne 1 (advanced 5), .getNewId 0 3, .insertOne 0 (advanced 3)] = some s ∧
      s.collection = [started, advanced 5, advanced 3] := ⟨_, rfl, rfl⟩
  have h0 : machine.Init noDocuments := ⟨fun _ => rfl, rfl, rfl⟩
  have halong := along_causal_started (l := [.getNewId 1 5, .insertOne 1 (advanced 5),
    .getNewId 0 3, .insertOne 0 (advanced 3)]) fun p e he => by
      simp only [List.mem_cons, reduceCtorEq, WriterAction.insertOne.injEq, false_or,
        List.not_mem_nil, or_false] at he
      rcases he with ⟨-, he⟩ | ⟨-, he⟩
      · exact ⟨5, he⟩
      · exact ⟨3, he⟩
  have hi := sagaInv_run (sagaInv_init h0) halong hs
  have hr := (sagasComplete_iff_pairwise hi).1 (hall s ((Machine.ReachIf.init h0).run halong hs))
  rw [hc] at hr
  have hlast : Restores (advanced 5) (advanced 3) :=
    (List.pairwise_cons.1 (List.pairwise_cons.1 hr).2).1 _ (by simp)
  have hlt := (hlast "saga" (toHexString 1) (by simp) rfl rfl).2 1 rfl
  exact absurd hlt.2 (by decide)

end Runs

end Writers

end MongoEventStorage

end NodeCqrs
