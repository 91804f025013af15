import NodeCqrs.Proofs.RabbitMqConsumer
import NodeCqrs.RabbitMq.Queue

/-!
# No message is lost

Every delivery is finalised at most once, and on its own channel only, so the broker has each
message in one place (`Inv`). What a callback has done by the time it finalises its delivery is
`Progress`.
-/

namespace NodeCqrs.RabbitMqQueue

open RabbitMqConsumer (Callback Content Finalization Phase Thrown failed_cases inv_start inv_step)
open RabbitMqGateway

variable {s s' : Sys} {x : Delivered} {d : RabbitMqConsumer.Delivery}
  {c c' : Callback} {k m : ℕ} {f : Finalization} {p : Option ℕ} {ownAppId : Option String}

/-- The handlers of a delivery whose content decodes to a message. -/
def handlersFor (d : RabbitMqConsumer.Delivery) : Option (List EstablishedSubscription) :=
  match d.parse d.content with
  | some (.message type) => some (getHandlers d.subscriptions d.queueGivenName type.key)
  | _ => none

/-- The handler is not to ignore the message. -/
def keeps (d : RabbitMqConsumer.Delivery) (ownAppId : Option String)
    (s : EstablishedSubscription) : Bool :=
  !(s.ignoreOwn && d.appId = ownAppId)

/-- Each handler of the message, but those that ignore what their process publishes, has been
called in turn and has fulfilled. -/
def Completed (x : Delivered) : Prop :=
  ∃ handlers, handlersFor x.delivery = some handlers
    ∧ x.fulfilled = handlers.filter (keeps x.delivery (some x.ownAppId))

/-- There is nothing to call. -/
def Unhandled (d : RabbitMqConsumer.Delivery) : Prop :=
  ∀ handlers, handlersFor d = some handlers →
    handlers = [] ∧ isSystemQueue d.queueGivenName = false

/-- What holds of a delivery at any time. -/
structure Progress (x : Delivered) : Prop where
  inv : RabbitMqConsumer.Inv x.callback
  acked : .ack ∈ x.callback.issued → x.callback.settled ∧ Completed x
  nacked : .nack ∈ x.callback.issued → x.failed = true ∨ Unhandled x.delivery
  appId : ∀ handlers, x.callback.phase = .appId handlers →
    handlersFor x.delivery = some handlers ∧ x.fulfilled = []
  handler : ∀ ownAppId called rest, x.callback.phase = .handler ownAppId called rest →
    ∃ handlers, handlersFor x.delivery = some handlers
      ∧ x.fulfilled ++ called :: rest.filter (keeps x.delivery ownAppId) =
        handlers.filter (keeps x.delivery ownAppId)
      ∧ handlers.filter (keeps x.delivery ownAppId) =
        handlers.filter (keeps x.delivery (some x.ownAppId))

/-- The loop skips what is not kept. -/
theorem callHandlers_keeps (d : RabbitMqConsumer.Delivery) (c : Callback)
    (ownAppId : Option String) :
    ∀ handlers : List EstablishedSubscription,
      handlers.filter (keeps d ownAppId) = []
        ∧ d.callHandlers c ownAppId handlers = (if c.messageFinalized then c
          else { c with issued := c.issued ++ [.ack] }).settle .resolved
      ∨ ∃ s rest, handlers.filter (keeps d ownAppId) = s :: rest.filter (keeps d ownAppId)
        ∧ d.callHandlers c ownAppId handlers = { c with phase := .handler ownAppId s rest }
  | [] => .inl ⟨rfl, rfl⟩
  | s :: handlers => by
    unfold RabbitMqConsumer.Delivery.callHandlers
    by_cases hs : (s.ignoreOwn && d.appId = ownAppId) = true
    · rw [if_pos hs, List.filter_cons_of_neg (by simp [keeps, hs])]
      exact callHandlers_keeps d c ownAppId handlers
    · rw [if_neg hs, List.filter_cons_of_pos (by simp only [keeps, hs, Bool.not_false])]
      exact .inr ⟨s, handlers, rfl, rfl⟩

theorem callHandlers_issued (d : RabbitMqConsumer.Delivery) (c : Callback)
    (ownAppId : Option String)
    (handlers : List EstablishedSubscription) :
    c.issued <+: (d.callHandlers c ownAppId handlers).issued := by
  rcases callHandlers_keeps d c ownAppId handlers with ⟨-, h⟩ | ⟨s, rest, -, h⟩ <;> rw [h]
  split_ifs
  · exact List.prefix_rfl
  · exact List.prefix_append ..

theorem failed_issued (d : RabbitMqConsumer.Delivery) (c : Callback) (err : Thrown) :
    (d.failed c err).settled ∧ ((d.failed c err).issued = c.issued
      ∨ (d.failed c err).issued = c.issued ++ [.nack]) := by
  rcases failed_cases d c err with ⟨-, h⟩ | ⟨-, h⟩ <;> rw [h]
  · refine ⟨.inl rfl, ?_⟩
    split_ifs
    · exact .inl rfl
    · exact .inr rfl
  · exact ⟨.inr rfl, .inl rfl⟩

theorem step_issued {a : RabbitMqConsumer.Action} (hst : d.step c a = some c') :
    c.issued <+: c'.issued := by
  have hfailed : ∀ err, c.issued <+: (d.failed c err).issued := fun err => by
    rcases (failed_issued d c err).2 with h | h <;> rw [h]
    exact List.prefix_append ..
  rcases RabbitMqConsumer.step_cases hst with
    ⟨-, -, rfl⟩ | ⟨-, -, handlers, -, ⟨-, ownAppId, rfl⟩ | ⟨err, -, rfl⟩⟩
  · exact List.prefix_append ..
  · exact callHandlers_issued ..
  · exact hfailed err

/-- The loop is called with what is left of the handlers. -/
theorem progress_callHandlers {handlers all : List EstablishedSubscription}
    (hi : RabbitMqConsumer.Inv (x.delivery.callHandlers c ownAppId handlers))
    (ha : .ack ∉ c.issued) (hn : .nack ∈ c.issued → x.failed = true ∨ Unhandled x.delivery)
    (hall : handlersFor x.delivery = some all)
    (hc : x.callback = x.delivery.callHandlers c ownAppId handlers)
    (hf : x.fulfilled ++ handlers.filter (keeps x.delivery ownAppId) =
      all.filter (keeps x.delivery ownAppId))
    (hown : all.filter (keeps x.delivery ownAppId) =
      all.filter (keeps x.delivery (some x.ownAppId))) : Progress x := by
  rcases callHandlers_keeps x.delivery c ownAppId handlers with ⟨hnil, h⟩ | ⟨s, rest, hcons, h⟩ <;>
    rw [← hc] at h hi
  · have hphase : x.callback.phase = .resolved := by rw [h]; rfl
    have hissued : x.callback.issued = c.issued ∨ x.callback.issued = c.issued ++ [.ack] := by
      rw [h]
      split_ifs
      · exact .inl rfl
      · exact .inr rfl
    rw [hnil, List.append_nil] at hf
    refine ⟨hi, fun _ => ⟨.inl hphase, all, hall, hf.trans hown⟩, fun hm => hn ?_,
      fun _ hp => by simp [hphase] at hp, fun _ _ _ hp => by simp [hphase] at hp⟩
    rcases hissued with h' | h' <;> rw [h'] at hm
    · exact hm
    · simpa using hm
  · have hphase : x.callback.phase = .handler ownAppId s rest := by rw [h]
    have hissued : x.callback.issued = c.issued := by rw [h]
    refine ⟨hi, fun hm => absurd (hissued ▸ hm) ha, fun hm => hn (hissued ▸ hm),
      fun _ hp => by simp [hphase] at hp, fun own called rest' hp => ⟨all, hall, ?_⟩⟩
    obtain ⟨rfl, rfl, rfl⟩ := Phase.handler.inj (hphase.symm.trans hp)
    exact ⟨hcons ▸ hf, hown⟩

/-- A callback that has not settled has not acknowledged. -/
theorem Progress.not_acked (hp : Progress x) (hs : ¬x.callback.settled) :
    .ack ∉ x.callback.issued := fun h => hs (hp.acked h).1

theorem progress_failed (hp : Progress x) (hs : ¬x.callback.settled) (err : Thrown)
    (hi : RabbitMqConsumer.Inv (x.delivery.failed x.callback err)) :
    Progress { x with callback := x.delivery.failed x.callback err, failed := true } := by
  obtain ⟨hsettled, hissued⟩ := failed_issued x.delivery x.callback err
  refine ⟨hi, fun hm => absurd ?_ (hp.not_acked hs), fun _ => .inl rfl, fun handlers h => ?_,
    fun _ _ _ h => ?_⟩
  · rcases hissued with h | h <;> simp only [h] at hm
    · exact hm
    · simpa using hm
  · rcases hsettled with h' | h' <;> cases h'.symm.trans h
  · rcases hsettled with h' | h' <;> cases h'.symm.trans h

/-- A step of the callback keeps it. -/
theorem Progress.step (hp : Progress x) {a : RabbitMqConsumer.Action} (ha : x.answers a = true)
    (hst : x.delivery.step x.callback a = some c') : Progress (x.after c' a) := by
  have hi := inv_step hp.inv hst
  cases a with
  | timeout =>
    simp only [RabbitMqConsumer.Delivery.step] at hst
    split_ifs at hst
    obtain rfl := Option.some.inj hst
    have hack : .ack ∈ x.callback.issued ++ [Finalization.nack] → .ack ∈ x.callback.issued := by
      simp
    exact ⟨hi, fun hm => hp.acked (hack hm), fun _ => .inl rfl, hp.appId, hp.handler⟩
  | appId appId =>
    simp only [RabbitMqConsumer.Delivery.step] at hst
    split at hst
    · next handlers hphase =>
      obtain rfl := Option.some.inj hst
      obtain rfl : appId = x.ownAppId := by simpa [Delivered.answers] using ha
      obtain ⟨hall, hf⟩ := hp.appId handlers hphase
      have hs : ¬x.callback.settled := by simp [Callback.settled, hphase]
      exact progress_callHandlers (x := x.after _ (.appId x.ownAppId)) hi (hp.not_acked hs)
        hp.nacked hall rfl (by simp [Delivered.after, hf]) rfl
    · cases hst
  | appIdFailed err =>
    simp only [RabbitMqConsumer.Delivery.step] at hst
    split at hst
    · next handlers hphase =>
      obtain rfl := Option.some.inj hst
      exact progress_failed hp (by simp [Callback.settled, hphase]) err hi
    · cases hst
  | handler =>
    simp only [RabbitMqConsumer.Delivery.step] at hst
    split at hst
    · next own called rest hphase =>
      obtain rfl := Option.some.inj hst
      obtain ⟨all, hall, hf, hown⟩ := hp.handler own called rest hphase
      have hs : ¬x.callback.settled := by simp [Callback.settled, hphase]
      exact progress_callHandlers (x := x.after _ .handler) hi (hp.not_acked hs) hp.nacked hall rfl
        (by simpa [Delivered.after, RabbitMqQueue.called, hphase] using hf) hown
    · cases hst
  | handlerFailed err =>
    simp only [RabbitMqConsumer.Delivery.step] at hst
    split at hst
    · next own called rest hphase =>
      obtain rfl := Option.some.inj hst
      exact progress_failed hp (by simp [Callback.settled, hphase]) err hi
    · cases hst

/-- A delivery begins with it. -/
theorem progress_start (m channel : ℕ) (own : String) (d : RabbitMqConsumer.Delivery) :
    Progress { message := m, channel, ownAppId := own, delivery := d, callback := d.start } := by
  have hi := inv_start d
  generalize hs : d.start = callback at hi
  unfold RabbitMqConsumer.Delivery.start at hs
  dsimp only at hs
  have hsettled : ∀ {c : Callback}, c.phase = .rejected → c.issued = [] →
      RabbitMqConsumer.Inv c →
      Progress { message := m, channel, ownAppId := own, delivery := d, callback := c } :=
    fun hphase hissued hi => ⟨hi, by simp [hissued], by simp [hissued], by simp [hphase],
      by simp [hphase]⟩
  split at hs
  · subst hs
    exact hsettled rfl rfl hi
  · next content hcontent =>
    split_ifs at hs with ht
    · subst hs
      exact hsettled rfl rfl hi
    have hfailed : ∀ {c : Callback}, Unhandled d → c.issued = [] → d.failed c {} = callback →
        Progress { message := m, channel, ownAppId := own, delivery := d, callback } := by
      rintro c hu hissued rfl
      obtain ⟨hsettled, hcases⟩ := failed_issued d c {}
      rw [hissued] at hcases
      refine ⟨hi, fun hm => ?_, fun _ => .inr hu, fun handlers h => ?_, fun _ _ _ h => ?_⟩
      · rcases hcases with h | h <;> simp [h] at hm
      · rcases hsettled with h' | h' <;> cases h'.symm.trans h
      · rcases hsettled with h' | h' <;> cases h'.symm.trans h
    cases content with
    | null => exact hfailed (fun handlers h => by simp [handlersFor, hcontent] at h) rfl hs
    | message type =>
      have hall : handlersFor d = some (getHandlers d.subscriptions d.queueGivenName type.key) := by
        simp [handlersFor, hcontent]
      dsimp only at hs
      split_ifs at hs with hnone hany
      · refine hfailed (fun handlers h => ?_) rfl hs
        rw [hall] at h
        simpa [← Option.some.inj h] using hnone
      · subst hs
        exact ⟨hi, by simp, by simp, fun handlers h => ⟨by rw [hall, Phase.appId.inj h], rfl⟩,
          by simp⟩
      · have hkeep : ∀ own' : Option String,
            (getHandlers d.subscriptions d.queueGivenName type.key).filter (keeps d own') =
              getHandlers d.subscriptions d.queueGivenName type.key := fun own' =>
          List.filter_eq_self.2 fun s hs' => by
            have hown : s.ignoreOwn = false := by
              simpa using List.any_eq_false.1 (Bool.not_eq_true _ ▸ hany) s hs'
            simp [keeps, hown]
        exact progress_callHandlers (c := _) (hs ▸ hi) (by simp) (by simp) hall hs.symm
          (by simp) (by rw [hkeep, hkeep])

/-- The messages the broker has, with where each is. -/
def Sys.messages (s : Sys) : List ℕ :=
  s.ready ++ (s.unacked.filterMap s.messageOf ++ (s.sent ++ s.finalized.map Prod.fst))

/-- What holds in every state, when one delivery may still be about to be finalised. -/
structure Inv (pending : Option ℕ) (s : Sys) : Prop where
  preconditionFailed : s.preconditionFailed = false
  progress : ∀ (k : ℕ) x, s.deliveries[k]? = some x → Progress x
  ofMessage : ∀ (k : ℕ) x, s.deliveries[k]? = some x → s.published[x.message]? =
    some { content := x.delivery.content, appId := x.delivery.appId }
  nodup : s.unacked.Nodup
  unacked : ∀ k, k ∈ s.unacked ↔ ∃ x, s.deliveries[k]? = some x ∧ x.channel ∉ s.closed
    ∧ (x.callback.issued = [] ∨ pending = some k)
  messages : s.messages.Perm (List.range s.published.length)
  sent : s.sent = []
  finalized : ∀ m f, (m, f) ∈ s.finalized → ∃ (k : ℕ) (x : Delivered),
    s.deliveries[k]? = some x ∧ x.message = m ∧ f ∈ x.callback.issued

theorem messageOf_eq {s : Sys} (h : s.deliveries[k]? = some x) :
    s.messageOf k = some x.message := by
  simp [Sys.messageOf, h]

/-- The broker takes back what it waits for on the channel. -/
theorem Inv.close (hi : Inv none s) (channel : ℕ) : Inv none (s.close channel) where
  preconditionFailed := hi.preconditionFailed
  progress := hi.progress
  ofMessage := hi.ofMessage
  nodup := hi.nodup.filter _
  unacked k := by
    have hover : ∀ x, s.deliveries[k]? = some x →
        (s.isOver channel k = true ↔ x.channel = channel) := fun x hx => by simp [Sys.isOver, hx]
    constructor
    · intro hk
      obtain ⟨hk, hn⟩ := List.mem_filter.1 hk
      obtain ⟨x, hx, hopen, hissued⟩ := (hi.unacked k).1 hk
      refine ⟨x, hx, fun hm => ?_, hissued⟩
      rcases List.mem_cons.1 hm with hm | hm
      · simp [(hover x hx).2 hm] at hn
      · exact hopen hm
    · rintro ⟨x, hx, hopen, hissued⟩
      refine List.mem_filter.2 ⟨(hi.unacked k).2 ⟨x, hx, fun hm =>
        hopen (List.mem_cons_of_mem _ hm), hissued⟩, ?_⟩
      rw [Bool.not_eq_true', Bool.eq_false_iff]
      exact fun h => hopen ((hover x hx).1 h ▸ List.mem_cons_self ..)
  messages := by
    refine .trans ?_ hi.messages
    have hperm : ((s.unacked.filter (s.isOver channel)).filterMap s.messageOf
        ++ (s.unacked.filter (!s.isOver channel ·)).filterMap s.messageOf).Perm
        (s.unacked.filterMap s.messageOf) := by
      rw [← List.filterMap_append]
      exact (List.filter_append_perm (s.isOver channel) s.unacked).filterMap _
    show ((_ ++ s.ready) ++ (_ ++ (s.sent ++ s.finalized.map Prod.fst))).Perm s.messages
    refine (List.Perm.append_right _ List.perm_append_comm).trans ?_
    rw [List.append_assoc, ← List.append_assoc (List.filterMap _ _)]
    exact (hperm.append_right _).append_left _
  sent := hi.sent
  finalized := hi.finalized

/-- A delivery that has issued its one finalisation is finalised, if its channel is open. -/
theorem Inv.finalize (hi : Inv (some k) s) (hx : s.deliveries[k]? = some x)
    (hissued : x.callback.issued = [f]) : Inv none (s.finalize k f) := by
  unfold Sys.finalize
  rw [hx]
  dsimp only
  have hne : ∀ y, s.deliveries[k]? = some y → y.callback.issued ≠ [] := fun y hy h => by
    obtain rfl := Option.some.inj (hx.symm.trans hy)
    simp [hissued] at h
  have hother : ∀ j, j ≠ k → (j ∈ s.unacked ↔ ∃ y, s.deliveries[j]? = some y
      ∧ y.channel ∉ s.closed ∧ (y.callback.issued = [] ∨ none = some j)) := fun j hj => by
    rw [hi.unacked j]
    simp [Ne.symm hj]
  by_cases hclosed : x.channel ∈ s.closed
  · rw [if_pos hclosed]
    refine ⟨hi.preconditionFailed, hi.progress, hi.ofMessage, hi.nodup, fun j => ?_, hi.messages,
      hi.sent, hi.finalized⟩
    by_cases hj : j = k
    · subst hj
      refine iff_of_false (fun hm => ?_) ?_
      · obtain ⟨y, hy, hopen, -⟩ := (hi.unacked j).1 hm
        obtain rfl := Option.some.inj (hx.symm.trans hy)
        exact hopen hclosed
      · rintro ⟨y, hy, -, h | h⟩
        · exact hne y hy h
        · cases h
    · exact hother j hj
  · have hk : k ∈ s.unacked := (hi.unacked k).2 ⟨x, hx, hclosed, .inr rfl⟩
    rw [if_neg hclosed, if_pos hk]
    refine ⟨hi.preconditionFailed, hi.progress, hi.ofMessage, hi.nodup.erase _, fun j => ?_, ?_,
      hi.sent, fun m f' hm => ?_⟩
    · by_cases hj : j = k
      · subst hj
        refine iff_of_false hi.nodup.not_mem_erase ?_
        rintro ⟨y, hy, -, h | h⟩
        · exact hne y hy h
        · cases h
      · rw [List.mem_erase_of_ne hj]
        exact hother j hj
    · refine .trans ?_ hi.messages
      have hperm : (s.unacked.filterMap s.messageOf).Perm
          (x.message :: (s.unacked.erase k).filterMap s.messageOf) := by
        have h := (List.perm_cons_erase hk).filterMap s.messageOf
        rwa [List.filterMap_cons_some (messageOf_eq hx)] at h
      show (s.ready ++ (_ ++ (s.sent ++ (s.finalized ++ [(x.message, f)]).map Prod.fst))).Perm
        s.messages
      rw [List.map_append, ← List.append_assoc s.sent, ← List.append_assoc (List.filterMap _ _)]
      refine List.Perm.append_left _ (.trans ?_ (hperm.append_right _).symm)
      rw [List.cons_append]
      exact List.perm_append_singleton ..
    · rcases List.mem_append.1 hm with hm | hm
      · exact hi.finalized m f' hm
      · obtain ⟨rfl, rfl⟩ := Prod.mk.inj (List.mem_singleton.1 hm)
        exact ⟨k, x, hx, rfl, by simp [hissued]⟩

theorem length_of_getElem? (h : s.deliveries[k]? = some x) : k < s.deliveries.length :=
  (List.getElem?_eq_some_iff.1 h).1

/-- A callback goes on, and may have a finalisation to issue. -/
theorem Inv.replaced (hi : Inv none s) (hx : s.deliveries[k]? = some x) {x' : Delivered}
    (hp : Progress x') (hm : x'.message = x.message) (hc : x'.channel = x.channel)
    (hd : x'.delivery = x.delivery) (hf : ∀ f ∈ x.callback.issued, f ∈ x'.callback.issued)
    (hpend : ∀ j, p = some j → j = k)
    (hiff : (x'.callback.issued = [] ∨ p = some k) ↔ x.callback.issued = []) :
    Inv p { s with deliveries := s.deliveries.set k x' } := by
  have hset : ∀ (j : ℕ) y, (s.deliveries.set k x')[j]? = some y ↔
      j = k ∧ x' = y ∨ j ≠ k ∧ s.deliveries[j]? = some y := by
    intro j y
    rw [List.getElem?_set]
    by_cases hj : k = j
    · simp [← hj, length_of_getElem? hx]
    · simp [hj, Ne.symm hj]
  have hmessageOf : ({ s with deliveries := s.deliveries.set k x' } : Sys).messageOf =
      s.messageOf := by
    funext j
    unfold Sys.messageOf
    dsimp only
    rw [List.getElem?_set]
    split_ifs with hj hlt
    · rw [← hj, hx, Option.map_some, Option.map_some, hm]
    · exact absurd (length_of_getElem? hx) (hj ▸ hlt)
    · rfl
  refine ⟨hi.preconditionFailed, fun j y hy => ?_, fun j y hy => ?_, hi.nodup, fun j => ?_, ?_,
    hi.sent, fun m f hmem => ?_⟩
  · rcases (hset j y).1 hy with ⟨-, rfl⟩ | ⟨-, hy⟩
    · exact hp
    · exact hi.progress j y hy
  · rcases (hset j y).1 hy with ⟨-, rfl⟩ | ⟨-, hy⟩
    · rw [hm, hd]
      exact hi.ofMessage k x hx
    · exact hi.ofMessage j y hy
  · rw [hi.unacked j]
    by_cases hj : j = k
    · subst hj
      simp only [hx, Option.some.injEq, hset, ne_eq, not_true_eq_false, false_and, or_false,
        true_and, reduceCtorEq, exists_eq_left', hc, hiff]
    · have hpj : p ≠ some j := fun h => hj (hpend j h)
      simp [hset, hj, hpj]
  · show (s.ready ++ (s.unacked.filterMap _ ++ _)).Perm _
    rw [hmessageOf]
    exact hi.messages
  · obtain ⟨j, y, hy, hym, hyf⟩ := hi.finalized m f hmem
    by_cases hj : j = k
    · subst hj
      obtain rfl := Option.some.inj (hx.symm.trans hy)
      exact ⟨j, x', (hset j x').2 (.inl ⟨rfl, rfl⟩), hm.trans hym, hf f hyf⟩
    · exact ⟨j, y, (hset j y).2 (.inr ⟨hj, hy⟩), hym, hyf⟩

/-- A message is delivered, and its callback may have a finalisation to issue. -/
theorem Inv.delivered (hi : Inv none s) {ready : List ℕ} (hready : s.ready = x.message :: ready)
    (hp : Progress x) (hopen : x.channel ∉ s.closed)
    (hof : s.published[x.message]? =
      some { content := x.delivery.content, appId := x.delivery.appId })
    (hpend : ∀ j, p = some j → j = s.deliveries.length)
    (hissued : x.callback.issued = [] ∨ p = some s.deliveries.length) :
    Inv p { s with
      ready
      deliveries := s.deliveries ++ [x]
      unacked := s.unacked ++ [s.deliveries.length] } := by
  have happ : ∀ (j : ℕ) y, (s.deliveries ++ [x])[j]? = some y ↔
      s.deliveries[j]? = some y ∨ j = s.deliveries.length ∧ x = y := by
    intro j y
    rw [List.getElem?_append]
    split_ifs with hlt
    · simp [Nat.ne_of_lt hlt]
    · have hnone : s.deliveries[j]? = none := List.getElem?_eq_none (Nat.le_of_not_lt hlt)
      rw [hnone, List.getElem?_singleton]
      split_ifs with hz
      · simp [show j = s.deliveries.length by omega]
      · simp [show j ≠ s.deliveries.length by omega]
  have hnew : s.deliveries.length ∉ s.unacked := fun hm => by
    obtain ⟨y, hy, -⟩ := (hi.unacked _).1 hm
    exact absurd (length_of_getElem? hy) (Nat.lt_irrefl _)
  refine ⟨hi.preconditionFailed, fun j y hy => ?_, fun j y hy => ?_, ?_, fun j => ?_, ?_,
    hi.sent, fun m f hmem => ?_⟩
  · rcases (happ j y).1 hy with hy | ⟨-, rfl⟩
    · exact hi.progress j y hy
    · exact hp
  · rcases (happ j y).1 hy with hy | ⟨-, rfl⟩
    · exact hi.ofMessage j y hy
    · exact hof
  · refine List.nodup_append.2 ⟨hi.nodup, by simp, fun j hj j' hj' h => hnew ?_⟩
    exact List.mem_singleton.1 hj' ▸ h ▸ hj
  · by_cases hj : j = s.deliveries.length
    · subst hj
      refine iff_of_true (List.mem_append_right _ (List.mem_singleton_self _)) ?_
      exact ⟨x, (happ _ x).2 (.inr ⟨rfl, rfl⟩), hopen, hissued⟩
    · have hpj : p ≠ some j := fun h => hj (hpend j h)
      have hmem : j ∈ s.unacked ++ [s.deliveries.length] ↔ j ∈ s.unacked := by simp [hj]
      rw [hmem, hi.unacked j]
      simp [happ, hj, hpj]
  · refine .trans ?_ hi.messages
    have hsame : s.unacked.filterMap ({ s with
        ready
        deliveries := s.deliveries ++ [x]
        unacked := s.unacked ++ [s.deliveries.length] } : Sys).messageOf =
        s.unacked.filterMap s.messageOf := by
      refine List.filterMap_congr fun j hj => ?_
      obtain ⟨y, hy, -⟩ := (hi.unacked j).1 hj
      rw [messageOf_eq hy]
      exact messageOf_eq ((happ j y).2 (.inl hy))
    show (ready ++ ((s.unacked ++ [s.deliveries.length]).filterMap _ ++ _)).Perm s.messages
    rw [List.filterMap_append, hsame, List.filterMap_cons_some
      (messageOf_eq ((happ _ x).2 (.inr ⟨rfl, rfl⟩))), List.filterMap_nil, Sys.messages, hready,
      List.append_assoc, List.cons_append, List.nil_append]
    rw [← List.append_assoc, List.cons_append, ← List.append_assoc ready]
    exact List.perm_middle
  · obtain ⟨j, y, hy, h⟩ := hi.finalized m f hmem
    exact ⟨j, y, (happ j y).2 (.inl hy), h⟩

/-- A consumer acknowledges what it gets. -/
def Acknowledges : Action → Prop
  | .deliver _ _ consumer => consumer.noAck ≠ some true
  | .publish _ | .callback _ _ | .close _ => True

instance : DecidablePred Acknowledges := fun a => by
  unfold Acknowledges
  cases a <;> infer_instance

theorem Inv.step (hi : Inv none s) {a : Action} (ha : Acknowledges a) (hst : step s a = some s') :
    Inv none s' := by
  cases a with
  | publish message =>
    obtain rfl := Option.some.inj hst
    refine ⟨hi.preconditionFailed, hi.progress, fun k x hx => ?_, hi.nodup, hi.unacked, ?_, hi.sent,
      hi.finalized⟩
    · have h := hi.ofMessage k x hx
      exact (List.getElem?_append_left (List.getElem?_eq_some_iff.1 h).1).trans h
    · show ((s.ready ++ [s.published.length]) ++ _).Perm
        (List.range (s.published ++ [message]).length)
      rw [List.length_append, List.length_singleton, List.range_succ, List.append_assoc]
      refine .trans ?_ (hi.messages.append_right _)
      rw [Sys.messages, List.append_assoc]
      exact List.perm_append_comm.append_left _
  | deliver channel own consumer =>
    simp only [RabbitMqQueue.step] at hst
    split at hst
    · cases hst
    next m ready hready =>
    split at hst
    · cases hst
    next message hm =>
    split_ifs at hst with hclosed
    all_goals obtain rfl := Option.some.inj hst
    · exact absurd ‹_› ha
    · have hlen := (inv_start
        { consumer with content := message.content, appId := message.appId }).length_le
      have hp := progress_start m channel own
        { consumer with content := message.content, appId := message.appId }
      rcases hissued : ({ consumer with content := message.content, appId := message.appId } :
        RabbitMqConsumer.Delivery).start.issued with _ | ⟨f, _ | ⟨f', l⟩⟩
      · exact hi.delivered hready hp hclosed hm nofun (.inl hissued)
      · have hi' := hi.delivered (p := some s.deliveries.length) hready hp hclosed hm
          (fun j h => (Option.some.inj h).symm) (.inr rfl)
        exact hi'.finalize (List.getElem?_concat_length ..) hissued
      · simp [hissued] at hlen
  | callback k action =>
    simp only [RabbitMqQueue.step] at hst
    split at hst
    · cases hst
    next x hx =>
    split_ifs at hst with hanswers
    split at hst
    · cases hst
    next c' hstep =>
    obtain rfl := Option.some.inj hst
    have hp : Progress (x.after c' action) := (hi.progress k x hx).step hanswers hstep
    obtain ⟨l, hl⟩ := step_issued hstep
    have hc : (x.after c' action).callback = c' := by cases action <;> rfl
    have hsame : (x.after c' action).message = x.message ∧ (x.after c' action).channel = x.channel
        ∧ (x.after c' action).delivery = x.delivery := by
      cases action <;> exact ⟨rfl, rfl, rfl⟩
    have hf : ∀ f ∈ x.callback.issued, f ∈ (x.after c' action).callback.issued := fun f hf => by
      rw [hc, ← hl]
      exact List.mem_append_left _ hf
    have hlen := hp.inv.length_le
    rw [hc, ← hl, List.length_append] at hlen
    rw [← hl, List.drop_left]
    rcases l with _ | ⟨f, _ | ⟨f', l⟩⟩
    · rw [List.append_nil] at hl
      exact hi.replaced hx hp hsame.1 hsame.2.1 hsame.2.2 hf nofun (by simp [hc, hl])
    · have hnil : x.callback.issued = [] := by
        rw [List.length_singleton] at hlen
        exact List.eq_nil_of_length_eq_zero (by omega)
      have hi' := hi.replaced (p := some k) hx hp hsame.1 hsame.2.1 hsame.2.2 hf
        (fun j h => (Option.some.inj h).symm) (by simp [hnil])
      refine hi'.finalize (x := x.after c' action) ?_ (by rw [hc, ← hl, hnil]; rfl)
      exact List.getElem?_set_self (length_of_getElem? hx)
    · rw [List.length_cons, List.length_cons] at hlen
      omega
  | close channel =>
    obtain rfl := Option.some.inj hst
    exact hi.close channel

/-- A message is ready, being delivered or finalised, and one of the three only. One
that is acknowledged had every handler it is for fulfil in one delivery of it, and one that is
dead-lettered failed in a delivery or had nothing to handle it. What a callback is done with is
finalised, and nothing is finalised that its channel does not know. -/
structure Kept (s : Sys) : Prop where
  preconditionFailed : s.preconditionFailed = false
  sent : s.sent = []
  messages : s.messages.Perm (List.range s.published.length)
  acked : ∀ m, (m, .ack) ∈ s.finalized → ∃ x ∈ s.deliveries, x.message = m
    ∧ s.published[m]? = some { content := x.delivery.content, appId := x.delivery.appId }
    ∧ Completed x
  nacked : ∀ m, (m, .nack) ∈ s.finalized → ∃ x ∈ s.deliveries, x.message = m
    ∧ s.published[m]? = some { content := x.delivery.content, appId := x.delivery.appId }
    ∧ (x.failed = true ∨ Unhandled x.delivery)
  unacked : ∀ k ∈ s.unacked, ∀ x, s.deliveries[k]? = some x →
    x.callback.issued = [] ∧ x.callback.phase ≠ .resolved

theorem Inv.kept (hi : Inv none s) : Kept s where
  preconditionFailed := hi.preconditionFailed
  sent := hi.sent
  messages := hi.messages
  acked m hm := by
    obtain ⟨k, x, hx, rfl, hf⟩ := hi.finalized m _ hm
    exact ⟨x, List.mem_of_getElem? hx, rfl, hi.ofMessage k x hx, ((hi.progress k x hx).acked hf).2⟩
  nacked m hm := by
    obtain ⟨k, x, hx, rfl, hf⟩ := hi.finalized m _ hm
    exact ⟨x, List.mem_of_getElem? hx, rfl, hi.ofMessage k x hx, (hi.progress k x hx).nacked hf⟩
  unacked k hk x hx := by
    obtain ⟨y, hy, -, hissued | hnone⟩ := (hi.unacked k).1 hk
    · obtain rfl := Option.some.inj (hx.symm.trans hy)
      refine ⟨hissued, fun hr => ?_⟩
      have hone := ((hi.progress k x hx).inv.resolved hr).2
      simp [hissued] at hone
    · cases hnone

theorem inv_init : Inv none {} where
  preconditionFailed := rfl
  progress _ _ h := by cases h
  ofMessage _ _ h := by cases h
  nodup := List.nodup_nil
  unacked k := by simp
  messages := .refl _
  sent := rfl
  finalized _ _ h := by cases h

/-- In every run in which what is delivered is to be acknowledged, no message is lost, whenever
messages come, channels close and handlers end. -/
theorem none_lost {l : List Action} (hl : machine.Along (fun _ => Acknowledges) {} l)
    (hr : machine.run {} l = some s) : Kept s := by
  have hi : Inv none s := Machine.run_invariant (M := machine) (I := Inv none)
    (fun _ _ _ hi ha hst => hi.step ha hst) inv_init hl hr
  exact hi.kept

section Runs

/-- Two handlers of a queue, one for the messages of others only. -/
def consumer : RabbitMqConsumer.Delivery where
  queueGivenName := "q"
  subscriptions :=
    [{ exchange := "e", queueName := some "q", handler := 0, ignoreOwn := true,
       queueGivenName := some "q" },
     { exchange := "e", queueName := some "q", handler := 1, queueGivenName := some "q" }]
  parse content := if content = [] then none else some (.message .absent)
  content := []

/-- The channel closes while the second handler is at work. The message is delivered again, to the
process that has published it, before the first delivery ends. -/
def redelivered : List Action :=
  [.publish { content := [0x7b, 0x7d], appId := some "B" }, .publish { content := [] },
    .deliver 0 "A" consumer, .callback 0 (.appId "A"), .callback 0 .handler, .close 0,
    .deliver 1 "B" consumer, .callback 0 .handler, .callback 1 (.appId "B"),
    .deliver 1 "B" consumer, .callback 2 .timeout, .callback 1 .handler]

theorem none_lost_redelivered : ∃ s, machine.run {} redelivered = some s ∧ Kept s
    ∧ s.finalized = [(1, .nack), (0, .ack)]
    ∧ s.deliveries.map (fun x => (x.message, x.callback.issued, x.fulfilled.map (·.handler))) =
      [(0, [.ack], [0, 1]), (0, [.ack], [1]), (1, [.nack], [])] := by
  have hr : machine.run {} redelivered = some _ := rfl
  exact ⟨_, hr, none_lost (by decide) hr, rfl, rfl⟩

end Runs

end NodeCqrs.RabbitMqQueue
