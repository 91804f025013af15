import NodeCqrs.Proofs.MongoAggregateEvents
import NodeCqrs.Proofs.MongoSagaEvents

/-!
# Events read back from their documents

An aggregate id of 24 hex digits is stored as the number these are, so the case of its letters is
lost. An event comes back as it was unless its aggregate id has a letter in upper case, and an
aggregate's events are its own unless some id differs from it in case only
(`documents_read_back_iff`).
-/

namespace NodeCqrs

/-- The two texts are ObjectIds of the same digits, letters in upper case counting as those in lower
case. -/
def SameHexDigits (str str' : String) : Prop :=
  isHexObjectId str = true ∧ isHexObjectId str' = true
    ∧ str.toList.map hexValue = str'.toList.map hexValue

section HexObjectId

variable {str str' : String}

theorem toObjectIdOrString_eq_iff :
    toObjectIdOrString str = toObjectIdOrString str' ↔ str = str' ∨ SameHexDigits str str' := by
  unfold toObjectIdOrString toObjectId SameHexDigits
  by_cases h : isHexObjectId str = true <;> by_cases h' : isHexObjectId str' = true
  · simp only [h, h', if_true, Option.elim_some, StoredId.objectId.injEq, true_and,
      hexObjectId_eq_iff h h']
    exact ⟨.inr, fun hor => hor.elim (fun heq => by rw [heq]) id⟩
  · have hne : str ≠ str' := fun heq => h' (heq ▸ h)
    simp [h, h', hne]
  · have hne : str ≠ str' := fun heq => h (heq ▸ h')
    simp [h, h', hne]
  · simp [h, h']

/-- An ObjectId is spelled in lower case. -/
theorem toHexString_hexObjectId_iff :
    toHexString (hexObjectId str) = str ↔ IsHexId str := by
  constructor
  · intro heq
    rw [← heq]
    exact isHexId_toHexString _
  · intro hhex
    have hid := toObjectId_toHexString (hexObjectId str)
    rw [(isHexId_toHexString _).toObjectId] at hid
    exact (isHexId_toHexString _).hexObjectId_inj hhex (Option.some.inj hid)

end HexObjectId

namespace MongoEventStorage

variable {V : Type}

/-- An event with a hex id and an aggregate id. -/
structure Storable (e : Event String V) : Prop where
  id : ∃ id, e.id = some id ∧ IsHexId id
  aggregateId : ∃ aggregateId, e.aggregateId = some aggregateId ∧ aggregateId ≠ ""

theorem Storable.toEventDocument {e : Event String V} (h : Storable e) (newObjectId : ObjectId) :
    MongoEventStorage.toEventDocument newObjectId e
      = some (documentOf e (hexObjectId (e.id.getD ""))) := by
  obtain ⟨id, hid, hhex⟩ := h.id
  simp [MongoEventStorage.toEventDocument, hid, hhex.toObjectId]

theorem Storable.documentOf_aggregateId {e : Event String V} (h : Storable e) (_id : ObjectId) :
    (documentOf e _id).aggregateId = e.aggregateId.map toObjectIdOrString := by
  obtain ⟨aggregateId, ha, hne⟩ := h.aggregateId
  simp [documentOf, ha, Option.filter, truthy, hne]

/-- An event comes back as it was if and only if its aggregate id is no ObjectId or one in lower
case. -/
theorem Storable.toEvent_iff {e : Event String V} (h : Storable e) :
    toEvent (documentOf e (hexObjectId (e.id.getD ""))) = e ↔
      ∀ aggregateId ∈ e.aggregateId, isHexObjectId aggregateId = true → IsHexId aggregateId := by
  obtain ⟨id, hid, hhex⟩ := h.id
  obtain ⟨aggregateId, ha, hne⟩ := h.aggregateId
  have hidback : toHexString (hexObjectId id) = id :=
    toHexString_hexObjectId_iff.2 hhex
  have hfilter : ∀ str : String, str ≠ "" → (some str).filter (truthy ·) = some str := fun str hs => by
    simp [Option.filter, truthy, hs]
  have hagg : (toEvent (documentOf e (hexObjectId (e.id.getD "")))).aggregateId = some
      (if isHexObjectId aggregateId then toHexString (hexObjectId aggregateId)
        else aggregateId) := by
    simp only [toEvent, h.documentOf_aggregateId, ha, Option.map_some, toObjectIdOrString,
      toObjectId]
    split_ifs
    · exact hfilter _ (isHexId_toHexString _).ne_empty
    · exact hfilter _ hne
  have hiff : toEvent (documentOf e (hexObjectId (e.id.getD ""))) = e ↔
      (if isHexObjectId aggregateId then toHexString (hexObjectId aggregateId)
        else aggregateId) = aggregateId := by
    obtain ⟨_, type, _, aggregateVersion, sagaOrigins, payload, context⟩ := e
    obtain rfl : _ = some id := hid
    obtain rfl : _ = some aggregateId := ha
    simp only [toEvent, documentOf, Option.getD_some, hidback, Event.mk.injEq, true_and, and_true]
      at hagg ⊢
    rw [hagg, Option.some.injEq]
  rw [hiff]
  simp only [ha, Option.mem_some_iff, forall_eq']
  split_ifs with hx
  · rw [toHexString_hexObjectId_iff]
    exact ⟨fun h _ => h, fun h => h hx⟩
  · exact ⟨fun _ hx' => absurd hx' hx, fun _ => rfl⟩

/-- The aggregate's documents are those of its events, if no other aggregate's id has its digits. -/
theorem ofAggregate_perm_iff {log : List (Event String V)} (h : ∀ e ∈ log, Storable e)
    (newObjectId : ObjectId) (aggregateId : String) :
    (getAggregateEvents (log.filterMap (toEventDocument newObjectId))
        (toObjectIdOrString aggregateId)).Perm
      ((log.filter (·.aggregateId = some aggregateId)).filterMap (toEventDocument newObjectId))
    ↔ ∀ e ∈ log, ∀ aggregateId' ∈ e.aggregateId,
      SameHexDigits aggregateId' aggregateId → aggregateId' = aggregateId := by
  let document : Event String V → Doc V := fun e => documentOf e (hexObjectId (e.id.getD ""))
  have hmap : ∀ l : List (Event String V), (∀ e ∈ l, Storable e) →
      l.filterMap (toEventDocument newObjectId) = l.map document := by
    intro l hl
    rw [List.filterMap_congr fun e he => (hl e he).toEventDocument newObjectId,
      ← List.filterMap_eq_map]
    rfl
  have hfind : getAggregateEvents (log.map document) (toObjectIdOrString aggregateId)
      = sortByVersion ((log.filter
        (·.aggregateId.map toObjectIdOrString = some (toObjectIdOrString aggregateId))).map
          document) := by
    rw [getAggregateEvents]
    simp only [Bool.false_and, Bool.false_eq_true, if_false, List.append_nil, List.filter_map]
    congr 2
    refine List.filter_congr fun e he => ?_
    simp [AggregateEventsQuery.filter, AggregateEventsQuery.wants,
      AggregateEventsQuery.hasTypeFilter, document, (h e he).documentOf_aggregateId]
  have hsub : log.filter (·.aggregateId = some aggregateId)
      = (log.filter (·.aggregateId.map toObjectIdOrString =
        some (toObjectIdOrString aggregateId))).filter (·.aggregateId = some aggregateId) := by
    rw [List.filter_filter]
    refine List.filter_congr fun e _ => ?_
    by_cases ha : e.aggregateId = some aggregateId <;> simp [ha]
  rw [hmap log h, hmap _ fun e he => h e (List.mem_filter.1 he).1, hfind,
    (perm_sortByVersion _).congr_left]
  constructor
  · intro hperm e he aggregateId' ha hsame
    have hlen := hperm.length_eq
    rw [List.length_map, List.length_map, hsub] at hlen
    have hall := List.length_filter_eq_length_iff.1 hlen.symm e (List.mem_filter.2 ⟨he, by
      rw [Option.mem_def] at ha
      simp [ha, toObjectIdOrString_eq_iff, hsame]⟩)
    rw [Option.mem_def] at ha
    simpa [ha] using hall
  · intro hids
    have hself := hsub.trans (List.filter_eq_self.2 fun e he => ?_)
    · rw [hself]
    obtain ⟨he, hsame⟩ := List.mem_filter.1 he
    obtain ⟨aggregateId', ha, -⟩ := (h e he).aggregateId
    simp only [ha, Option.map_some, decide_eq_true_eq, Option.some.injEq,
      toObjectIdOrString_eq_iff] at hsame
    rcases hsame with rfl | hsame
    · simp [ha]
    · simp [ha, hids e he aggregateId' ha hsame]

/-- Events come back as they were, and an aggregate's are found by its id, if and only if no letter
of an ObjectId is in upper case where that would tell two ids apart. -/
theorem documents_read_back_iff {log : List (Event String V)} (h : ∀ e ∈ log, Storable e)
    (newObjectId : ObjectId) :
    (∀ e ∈ log, (toEventDocument newObjectId e).map toEvent = some e ↔
      ∀ aggregateId ∈ e.aggregateId, isHexObjectId aggregateId = true → IsHexId aggregateId)
    ∧ ∀ aggregateId, (getAggregateEvents (log.filterMap (toEventDocument newObjectId))
          (toObjectIdOrString aggregateId)).Perm
        ((log.filter (·.aggregateId = some aggregateId)).filterMap (toEventDocument newObjectId))
      ↔ ∀ e ∈ log, ∀ aggregateId' ∈ e.aggregateId,
        SameHexDigits aggregateId' aggregateId → aggregateId' = aggregateId := by
  refine ⟨fun e he => ?_, ofAggregate_perm_iff h newObjectId⟩
  rw [(h e he).toEventDocument, Option.map_some, Option.some.injEq]
  exact (h e he).toEvent_iff

/-- An event of an aggregate whose id has a letter in upper case. -/
def shouted : Event String ℕ :=
  { id := some "000000000000000000000001", type := "created"
    aggregateId := some "A00000000000000000000000", aggregateVersion := some 0, payload := 0 }

theorem shouted_storable : ∀ e ∈ [shouted], Storable e := by
  have h : Storable shouted := ⟨⟨_, rfl, EventStorages.isHexId_of_all (by decide)⟩, _, rfl, by decide⟩
  simpa using h

/-- One of an aggregate whose id is no `ObjectId`. -/
def named : Event String ℕ :=
  { id := some "000000000000000000000002", type := "created"
    aggregateId := some "order", aggregateVersion := some 0, payload := 0 }

theorem named_shouted_storable : ∀ e ∈ [named, shouted], Storable e := by
  have h : Storable named := ⟨⟨_, rfl, EventStorages.isHexId_of_all (by decide)⟩, _, rfl, by decide⟩
  intro e he
  rcases List.mem_cons.1 he with rfl | he
  · exact h
  · exact shouted_storable e he

theorem documents_read_back_shouted :
    (toEventDocument 0 named).map toEvent = some named
    ∧ (toEventDocument 0 shouted).map toEvent ≠ some shouted
    ∧ (getAggregateEvents ([named, shouted].filterMap (toEventDocument 0))
        (toObjectIdOrString "order")).Perm
      (([named, shouted].filter (·.aggregateId = some "order")).filterMap (toEventDocument 0)) := by
  obtain ⟨hback, hfound⟩ := documents_read_back_iff named_shouted_storable 0
  refine ⟨(hback named (by simp)).2 ?_, fun h => ?_, (hfound "order").2 ?_⟩
  · intro aggregateId ha hhex
    obtain rfl : "order" = aggregateId := Option.some.inj ha
    exact absurd hhex (by decide)
  · have hid := ((hback shouted (by simp)).1 h) _ rfl (by decide)
    exact absurd (hid.2 'A' (by decide)) (by decide)
  · intro e _ aggregateId' _ hsame
    exact absurd hsame.2.1 (by decide)

/-- It comes back with another aggregate id, and is found by that. -/
theorem documents_read_back_fails :
    (¬ ∀ e : Event String ℕ, Storable e → (toEventDocument 0 e).map toEvent = some e)
    ∧ ¬ ∀ log : List (Event String ℕ), (∀ e ∈ log, Storable e) → ∀ aggregateId, aggregateId ≠ "" →
      (getAggregateEvents (log.filterMap (toEventDocument 0))
        (toObjectIdOrString aggregateId)).Perm
      ((log.filter (·.aggregateId = some aggregateId)).filterMap (toEventDocument 0)) := by
  refine ⟨fun hback => ?_, fun hfound => ?_⟩
  · have h := hback shouted (shouted_storable shouted (by simp))
    exact absurd h (by decide)
  · have h := hfound [shouted] shouted_storable "a00000000000000000000000" (by decide)
    have hsame : SameHexDigits "A00000000000000000000000" "a00000000000000000000000" :=
      ⟨by decide, by decide, by decide⟩
    have heq := (ofAggregate_perm_iff shouted_storable 0 _).1 h shouted (by simp) _ rfl hsame
    exact absurd heq (by decide)

end MongoEventStorage

end NodeCqrs
