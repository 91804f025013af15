import NodeCqrs.RabbitMq.Consumer

/-!
# How a delivery is finalised

At any time at most one of `ack` and `nack` has been issued, and one has when the promise resolves:
whichever of the timeout, the handlers and the error branch comes second finds the flag set, or the
timeout cleared. What escapes the `try` is a content that is not JSON, or that the span cannot be
named after, and a thrown value that cannot be reported. What a consumer without acknowledgement is
registered with is not asked (`finalised_iff`).
-/

namespace NodeCqrs

namespace RabbitMqConsumer

variable {d : Delivery} {c c' : Callback}

/-- The promise has settled. -/
def Callback.settled (c : Callback) : Prop := c.phase = .resolved ∨ c.phase = .rejected

/-- The delivery ended as it should. -/
structure Finalised (d : Delivery) (c : Callback) : Prop where
  resolves : c.phase ≠ .rejected
  one : d.noAck ≠ some true → c.issued.length = 1
  none : d.noAck = some true → c.issued = []

/-- The content is JSON, and where spans are started, one can be named after it. -/
def Decodes (d : Delivery) : Prop :=
  ∃ content, d.parse d.content = some content ∧ (d.tracer = true → content.printable = true)

/-- What the action throws can be reported. -/
def Reported (d : Delivery) : Action → Prop
  | .appIdFailed err | .handlerFailed err => d.reports err = true
  | .timeout | .appId _ | .handler => True

/-- How many promises there are at most still to wait for. -/
def Phase.waits : Phase → ℕ
  | .appId handlers => handlers.length + 1
  | .handler _ _ handlers => handlers.length + 1
  | .running | .resolved | .rejected => 0

/-- Before the promise settles. -/
structure Open (c : Callback) : Prop where
  issued : c.issued.length = if c.messageFinalized then 1 else 0
  timeout : c.keepAliveTimeout = true → c.messageFinalized = false

/-- What holds of a callback whenever it waits, and once its promise has settled. -/
structure Inv (c : Callback) : Prop where
  waits : ¬ c.settled → Open c
  resolved : c.phase = .resolved → c.keepAliveTimeout = false ∧ c.issued.length = 1
  rejected : c.phase = .rejected →
    c.issued.length ≤ 1 ∧ (c.keepAliveTimeout = true → c.issued = [])

theorem Open.length_le (ho : Open c) : c.issued.length ≤ 1 := by
  rw [ho.issued]
  split_ifs
  · exact Nat.le_refl 1
  · exact Nat.zero_le 1

/-- At no time has more than one of them been issued. -/
theorem Inv.length_le (hi : Inv c) : c.issued.length ≤ 1 := by
  by_cases hs : c.settled
  · rcases hs with h | h
    · exact Nat.le_of_eq (hi.resolved h).2
    · exact (hi.rejected h).1
  · exact (hi.waits hs).length_le

theorem Open.nil (ho : Open c) (hf : ¬ c.messageFinalized = true) : c.issued = [] := by
  have h := ho.issued
  rw [if_neg hf] at h
  exact List.eq_nil_of_length_eq_zero h

/-- A callback that waits on. -/
theorem Open.waits (ho : Open c) {phase : Phase} (hr : phase ≠ .resolved)
    (hr' : phase ≠ .rejected) : Inv { c with phase } where
  waits _ := ⟨ho.issued, ho.timeout⟩
  resolved h := absurd h hr
  rejected h := absurd h hr'

/-- The message is finalised here, unless it has been. -/
theorem Open.resolve (ho : Open c) {x : Callback} {f : Finalization}
    (hx : x.issued = c.issued ++ [f]) :
    Inv ((if c.messageFinalized then c else x).settle .resolved) where
  waits h := absurd (.inl rfl) h
  resolved _ := by
    refine ⟨rfl, ?_⟩
    show (if c.messageFinalized then c else x).issued.length = 1
    split_ifs with hf
    · rw [ho.issued, if_pos hf]
    · rw [hx, ho.nil hf, List.nil_append, List.length_singleton]
  rejected h := by cases h

theorem Open.reject (ho : Open c) : Inv (c.settle .rejected) where
  waits h := absurd (.inr rfl) h
  resolved h := by cases h
  rejected _ := ⟨ho.length_le, fun h => by cases h⟩

/-- The error branch finalises the message and resolves, or it throws. -/
theorem failed_cases (d : Delivery) (c : Callback) (err : Thrown) :
    d.reports err = true ∧ d.failed c err
        = (if c.messageFinalized then c else c.rejectMessage).settle .resolved
      ∨ ¬ d.reports err = true ∧ d.failed c err = c.settle .rejected := by
  unfold Delivery.failed
  by_cases hr : d.reports err = true
  · exact .inl ⟨hr, if_pos hr⟩
  · exact .inr ⟨hr, if_neg hr⟩

/-- The loop ends, or waits for one of the handlers. -/
theorem callHandlers_cases (d : Delivery) (c : Callback) (ownAppId : Option String) :
    ∀ handlers, d.callHandlers c ownAppId handlers
        = (if c.messageFinalized then c
            else { c with issued := c.issued ++ [.ack] }).settle .resolved
      ∨ ∃ s rest, rest.length < handlers.length
        ∧ d.callHandlers c ownAppId handlers = { c with phase := .handler ownAppId s rest }
  | [] => .inl rfl
  | s :: handlers => by
    unfold Delivery.callHandlers
    by_cases hs : (s.ignoreOwn && d.appId = ownAppId) = true
    · rw [if_pos hs]
      rcases callHandlers_cases d c ownAppId handlers with h | ⟨s', rest, hlt, h⟩
      · exact .inl h
      · exact .inr ⟨s', rest, Nat.lt_succ_of_lt hlt, h⟩
    · rw [if_neg hs]
      exact .inr ⟨s, handlers, Nat.lt_succ_self _, rfl⟩

theorem Open.failed (ho : Open c) (err : Thrown) : Inv (d.failed c err) := by
  rcases failed_cases d c err with ⟨-, h⟩ | ⟨-, h⟩ <;> rw [h]
  · exact ho.resolve rfl
  · exact ho.reject

theorem Open.callHandlers (ho : Open c) (ownAppId : Option String)
    (handlers : List EstablishedSubscription) : Inv (d.callHandlers c ownAppId handlers) := by
  rcases callHandlers_cases d c ownAppId handlers with h | ⟨s, rest, -, h⟩ <;> rw [h]
  · exact ho.resolve rfl
  · exact ho.waits (by simp) (by simp)

/-- The content is read outside of the `try`; then the callback is at its first wait, or over. -/
theorem start_cases (d : Delivery) : ∃ c : Callback, Open c ∧ c.issued = [] ∧ c.phase = .running ∧
    (¬ Decodes d ∧ d.start = { c with phase := .rejected }
      ∨ Decodes d ∧ (d.start = d.failed c {} ∨
        (∃ handlers, d.start = { c with phase := .appId handlers })
        ∨ ∃ handlers, d.start = d.callHandlers c none handlers)) := by
  refine ⟨{ keepAliveTimeout :=
    d.handlerProcessTimeout.getD RabbitMqGateway.HANDLER_PROCESS_TIMEOUT ≠ 0 },
    ⟨rfl, fun _ => rfl⟩, rfl, rfl, ?_⟩
  unfold Delivery.start
  dsimp only
  rcases hp : d.parse d.content with _ | content
  · exact .inl ⟨fun ⟨_, h, _⟩ => by simp [hp] at h, rfl⟩
  · have hdec : Decodes d ↔ ¬ (d.tracer && !content.printable) = true := by
      simp [Decodes, hp]
    dsimp only
    by_cases ht : (d.tracer && !content.printable) = true
    · rw [if_pos ht]
      exact .inl ⟨fun h => hdec.1 h ht, rfl⟩
    · rw [if_neg ht]
      refine .inr ⟨hdec.2 ht, ?_⟩
      cases content with
      | null => exact .inl rfl
      | message type =>
        dsimp only
        split_ifs
        · exact .inl rfl
        · exact .inr (.inl ⟨_, rfl⟩)
        · exact .inr (.inr ⟨_, rfl⟩)

/-- A step is the timeout, or goes on from a wait, with the handlers left or in the error branch. -/
theorem step_cases {a : Action} (hst : d.step c a = some c') :
    (a = .timeout ∧ c.keepAliveTimeout = true
      ∧ c' = { c.rejectMessage with keepAliveTimeout := false })
    ∨ a ≠ .timeout ∧ ¬ c.settled ∧ ∃ handlers : List EstablishedSubscription,
      c.phase.waits = handlers.length + 1 ∧
      ((Reported d a ∧ ∃ ownAppId, c' = d.callHandlers c ownAppId handlers)
        ∨ ∃ err, (Reported d a ↔ d.reports err = true) ∧ c' = d.failed c err) := by
  have happId : ∀ {handlers}, c.phase = .appId handlers →
      ¬ c.settled ∧ c.phase.waits = handlers.length + 1 := fun h => by
    simp [Callback.settled, h, Phase.waits]
  have hhandler : ∀ {ownAppId s handlers}, c.phase = .handler ownAppId s handlers →
      ¬ c.settled ∧ c.phase.waits = handlers.length + 1 := fun h => by
    simp [Callback.settled, h, Phase.waits]
  cases a with
  | timeout =>
    simp only [Delivery.step] at hst
    split_ifs at hst with ht
    exact .inl ⟨rfl, ht, (Option.some.inj hst).symm⟩
  | appId appId =>
    simp only [Delivery.step] at hst
    split at hst
    · next h =>
      exact .inr ⟨nofun, (happId h).1, _, (happId h).2,
        .inl ⟨trivial, _, (Option.some.inj hst).symm⟩⟩
    · cases hst
  | appIdFailed err =>
    simp only [Delivery.step] at hst
    split at hst
    · next h =>
      exact .inr ⟨nofun, (happId h).1, _, (happId h).2,
        .inr ⟨err, Iff.rfl, (Option.some.inj hst).symm⟩⟩
    · cases hst
  | handler =>
    simp only [Delivery.step] at hst
    split at hst
    · next h =>
      exact .inr ⟨nofun, (hhandler h).1, _, (hhandler h).2,
        .inl ⟨trivial, _, (Option.some.inj hst).symm⟩⟩
    · cases hst
  | handlerFailed err =>
    simp only [Delivery.step] at hst
    split at hst
    · next h =>
      exact .inr ⟨nofun, (hhandler h).1, _, (hhandler h).2,
        .inr ⟨err, Iff.rfl, (Option.some.inj hst).symm⟩⟩
    · cases hst

theorem inv_start (d : Delivery) : Inv d.start := by
  obtain ⟨c, ho, hissued, -, ⟨-, h⟩ | ⟨-, h | ⟨handlers, h⟩ | ⟨handlers, h⟩⟩⟩ := start_cases d
  · rw [h]
    refine ⟨fun hs => absurd (.inr rfl) hs, fun hr => ?_, fun _ => ⟨ho.length_le, fun _ => hissued⟩⟩
    cases hr
  · exact h ▸ ho.failed {}
  · exact h ▸ ho.waits (by simp) (by simp)
  · exact h ▸ ho.callHandlers none handlers

/-- The timeout fires. -/
theorem Inv.timeout (hi : Inv c) (ht : c.keepAliveTimeout = true) :
    Inv { c.rejectMessage with keepAliveTimeout := false } := by
  have hone : c.issued = [] → (c.issued ++ [Finalization.nack]).length = 1 := fun h => by
    rw [h]
    rfl
  refine ⟨fun hs => ⟨?_, fun h => by cases h⟩, fun hr => ?_, fun hr => ⟨?_, fun h => by cases h⟩⟩
  · have ho := hi.waits hs
    exact hone (ho.nil (by simp [ho.timeout ht]))
  · have hf := (hi.resolved hr).1
    rw [ht] at hf
    cases hf
  · exact Nat.le_of_eq (hone ((hi.rejected hr).2 ht))

theorem inv_step {a : Action} (hi : Inv c) (hst : d.step c a = some c') : Inv c' := by
  rcases step_cases hst with
    ⟨-, ht, rfl⟩ | ⟨-, hs, handlers, -, ⟨-, ownAppId, rfl⟩ | ⟨err, -, rfl⟩⟩
  · exact hi.timeout ht
  · exact (hi.waits hs).callHandlers ownAppId handlers
  · exact (hi.waits hs).failed err

/-- The callback rejects where the report of what was thrown throws. -/
theorem failed_ne_rejected_iff {err : Thrown} :
    (d.failed c err).phase ≠ .rejected ↔ d.reports err = true := by
  rcases failed_cases d c err with ⟨hr, h⟩ | ⟨hr, h⟩ <;> rw [h]
  · exact iff_of_true (by simp [Callback.settle]) hr
  · exact iff_of_false (by simp [Callback.settle]) hr

theorem callHandlers_ne_rejected (ownAppId : Option String)
    (handlers : List EstablishedSubscription) :
    (d.callHandlers c ownAppId handlers).phase ≠ .rejected := by
  rcases callHandlers_cases d c ownAppId handlers with h | ⟨s, rest, -, h⟩ <;> rw [h] <;>
    simp [Callback.settle]

theorem start_ne_rejected_iff : d.start.phase ≠ .rejected ↔ Decodes d := by
  obtain ⟨c, -, -, -, ⟨hd, h⟩ | ⟨hd, h⟩⟩ := start_cases d
  · exact iff_of_false (by simp [h]) hd
  · refine iff_of_true ?_ hd
    rcases h with h | ⟨handlers, h⟩ | ⟨handlers, h⟩
    · -- The errors of the callback's own can be reported.
      rw [h, failed_ne_rejected_iff]
      simp [Delivery.reports]
    · simp [h]
    · exact h ▸ callHandlers_ne_rejected none handlers

theorem step_ne_rejected_iff {a : Action} (hst : d.step c a = some c') :
    c'.phase ≠ .rejected ↔ c.phase ≠ .rejected ∧ Reported d a := by
  rcases step_cases hst with
    ⟨rfl, -, rfl⟩ | ⟨-, hs, handlers, -, ⟨hr, ownAppId, rfl⟩ | ⟨err, hr, rfl⟩⟩
  · exact (and_iff_left trivial).symm
  · exact iff_of_true (callHandlers_ne_rejected _ _) ⟨fun h => hs (.inr h), hr⟩
  · rw [failed_ne_rejected_iff, hr]
    exact (and_iff_right fun h => hs (.inr h)).symm

theorem inv_run {l : List Action} (h : d.machine.run d.start l = some c) : Inv c :=
  Machine.run_keeps (M := d.machine) (I := Inv) (fun _ _ _ hi hst => inv_step hi hst)
    (inv_start d) h

/-- The promise does not reject if and only if the content decodes and all that is thrown can be
reported. -/
theorem ne_rejected_iff {l : List Action} (h : d.machine.run d.start l = some c) :
    c.phase ≠ .rejected ↔ Decodes d ∧ d.machine.Along (fun _ => Reported d) d.start l := by
  rw [← start_ne_rejected_iff]
  exact Machine.run_iff_along (M := d.machine) (P := fun c : Callback => c.phase ≠ .rejected)
    (fun _ _ _ hst => step_ne_rejected_iff hst) h

theorem failed_settled (d : Delivery) (c : Callback) (err : Thrown) :
    (d.failed c err).settled ∧ (d.failed c err).phase.waits = 0 := by
  rcases failed_cases d c err with ⟨-, h⟩ | ⟨-, h⟩ <;> rw [h]
  · exact ⟨.inl rfl, rfl⟩
  · exact ⟨.inr rfl, rfl⟩

theorem callHandlers_waits (ownAppId : Option String) (handlers : List EstablishedSubscription) :
    ((d.callHandlers c ownAppId handlers).settled
        ∨ 0 < (d.callHandlers c ownAppId handlers).phase.waits)
      ∧ (d.callHandlers c ownAppId handlers).phase.waits ≤ handlers.length := by
  rcases callHandlers_cases d c ownAppId handlers with h | ⟨s, rest, hlt, h⟩ <;> rw [h]
  · exact ⟨.inl (.inl rfl), Nat.zero_le _⟩
  · exact ⟨.inr (Nat.succ_pos _), hlt⟩

/-- The timeout settles nothing; anything else is one wait less. -/
theorem waits_step {a : Action} (hc : c.settled ∨ 0 < c.phase.waits)
    (hst : d.step c a = some c') : (c'.settled ∨ 0 < c'.phase.waits) ∧
      c'.phase.waits + (if a = .timeout then 0 else 1) ≤ c.phase.waits := by
  rcases step_cases hst with
    ⟨rfl, -, rfl⟩ | ⟨ha, -, handlers, hw, ⟨-, ownAppId, rfl⟩ | ⟨err, -, rfl⟩⟩
  · exact ⟨hc, Nat.le_refl _⟩
  · obtain ⟨h, hle⟩ := callHandlers_waits (d := d) (c := c) ownAppId handlers
    rw [if_neg ha, hw]
    exact ⟨h, Nat.succ_le_succ hle⟩
  · obtain ⟨h, hw0⟩ := failed_settled d c err
    rw [if_neg ha, hw, hw0]
    exact ⟨.inl h, Nat.succ_le_succ (Nat.zero_le _)⟩

theorem waits_run : ∀ {l : List Action} {c c' : Callback}, (c.settled ∨ 0 < c.phase.waits) →
    d.machine.run c l = some c' → (c'.settled ∨ 0 < c'.phase.waits)
      ∧ c'.phase.waits + l.countP (· ≠ .timeout) ≤ c.phase.waits
  | [], c, c', hc, hr => by
    obtain rfl := Option.some.inj hr
    exact ⟨hc, Nat.le_refl _⟩
  | a :: l, c, c', hc, hr => by
    obtain ⟨t, hst, hr⟩ := Option.bind_eq_some_iff.1 hr
    obtain ⟨ht, hle⟩ := waits_step hc hst
    obtain ⟨hc', hle'⟩ := waits_run ht hr
    refine ⟨hc', Nat.le_trans ?_ hle⟩
    rw [List.countP_cons]
    by_cases ha : a = .timeout
    · simpa [ha] using hle'
    · simpa [ha, ← Nat.add_assoc] using hle'

theorem start_waits (d : Delivery) : d.start.settled ∨ 0 < d.start.phase.waits := by
  obtain ⟨c, -, -, -, ⟨-, h⟩ | ⟨-, h | ⟨handlers, h⟩ | ⟨handlers, h⟩⟩⟩ := start_cases d
  · exact .inl (.inr (by rw [h]))
  · exact .inl (h ▸ (failed_settled d c {}).1)
  · exact .inr (h ▸ Nat.succ_pos _)
  · exact h ▸ (callHandlers_waits none handlers).1

/-- The promise settles once `getAppId` and the handlers have: there are no more of them than waits
at the start. -/
theorem settled_of_waits {l : List Action} (h : d.machine.run d.start l = some c)
    (hl : d.start.phase.waits ≤ l.countP (· ≠ .timeout)) : c.settled := by
  obtain ⟨hc, hle⟩ := waits_run (start_waits d) h
  refine hc.resolve_right fun hpos => ?_
  omega

/-- A delivery whose promise has settled ended as it should, if and only if the content decodes, the
consumer acknowledges, and all that was thrown could be reported. -/
theorem finalised_iff {l : List Action} (h : d.machine.run d.start l = some c) (hs : c.settled) :
    Finalised d c ↔ Decodes d ∧ d.noAck ≠ some true
      ∧ d.machine.Along (fun _ => Reported d) d.start l := by
  have hi := inv_run h
  have hne := ne_rejected_iff h
  constructor
  · intro hf
    have hresolved : c.phase = .resolved := hs.resolve_right hf.resolves
    refine ⟨(hne.1 hf.resolves).1, fun hno => ?_, (hne.1 hf.resolves).2⟩
    have hlen := (hi.resolved hresolved).2
    rw [hf.none hno] at hlen
    cases hlen
  · rintro ⟨hd, hno, hrep⟩
    have hr := hne.2 ⟨hd, hrep⟩
    exact ⟨hr, fun _ => (hi.resolved (hs.resolve_right hr)).2, fun h => absurd h hno⟩

/-- What the callback issues for how it ends in one piece. -/
def Finalization.of : RabbitMqGateway.Finalized → Finalization
  | .acked => .ack
  | .rejected _ => .nack

theorem failed_own (d : Delivery) (hc : c.messageFinalized = false) :
    (d.failed c {}).phase = .resolved ∧ (d.failed c {}).issued = c.issued ++ [.nack] := by
  have hr : d.reports {} = true := by simp [Delivery.reports]
  rcases failed_cases d c {} with ⟨-, h⟩ | ⟨hno, -⟩
  · rw [h, if_neg (by simp [hc])]
    exact ⟨rfl, rfl⟩
  · exact absurd hr hno

/-- The loop over the handlers from one wait to the next ends as the loop in one piece. -/
theorem callHandlers_completes (d : Delivery) {ownAppId : String} {appId : Option String}
    (throws : EstablishedSubscription → Bool) {msg : ConsumeMessage} (hmsg : msg.appId = d.appId) :
    ∀ (handlers : List EstablishedSubscription) (c : Callback),
      (∀ s ∈ handlers, s.ignoreOwn = true → appId = some ownAppId) → c.messageFinalized = false →
      c.issued = [] → ∃ l c', d.machine.run (d.callHandlers c appId handlers) l = some c'
        ∧ c'.phase = .resolved ∧ c'.issued =
          [.of (RabbitMqGateway.callHandlers ownAppId throws msg handlers).2]
  | [], c, _, hf, hi => by
    refine ⟨[], _, rfl, rfl, ?_⟩
    simp [Delivery.callHandlers, Callback.settle, hf, hi, RabbitMqGateway.callHandlers,
      Finalization.of]
  | s :: handlers, c, hown, hf, hi => by
    have hrest : ∀ s ∈ handlers, s.ignoreOwn = true → appId = some ownAppId := fun s hs =>
      hown s (List.mem_cons_of_mem _ hs)
    have hignores : (s.ignoreOwn && d.appId = appId) = s.ignores ownAppId msg := by
      unfold Subscription.ignores
      rw [hmsg]
      rcases ho : s.ignoreOwn with - | -
      · rfl
      · rw [hown s (List.mem_cons_self ..) ho]
    unfold Delivery.callHandlers RabbitMqGateway.callHandlers
    rw [hignores]
    split_ifs with hig ht
    · exact callHandlers_completes d throws hmsg handlers c hrest hf hi
    · obtain ⟨hp, hn⟩ := failed_own d (c := { c with phase := .handler appId s handlers }) hf
      refine ⟨[.handlerFailed {}], _, rfl, hp, ?_⟩
      rw [hn, show Callback.issued _ = [] from hi]
      rfl
    · obtain ⟨l, c', hr, hp, hn⟩ := callHandlers_completes d throws hmsg handlers
        { c with phase := .handler appId s handlers } hrest hf hi
      exact ⟨.handler :: l, c', hr, hp, hn⟩

/-- Without a timeout, the callback ends as the callback in one piece does. -/
theorem consume_completes (d : Delivery) {ownAppId : String}
    (throws : EstablishedSubscription → Bool) {msg : ConsumeMessage} (hmsg : msg.appId = d.appId)
    {type : MessageType} (hparse : d.parse d.content = some (.message type))
    (hprints : (Content.message type).printable = true) (hkey : type.key = msg.type) :
    ∃ l c, d.machine.run d.start l = some c ∧ c.phase = .resolved ∧ c.issued =
      [.of (RabbitMqGateway.consume d.subscriptions d.queueGivenName ownAppId throws msg).2] := by
  unfold Delivery.start RabbitMqGateway.consume
  rw [hparse]
  dsimp only
  rw [if_neg (by simp [hprints]), hkey]
  split_ifs with hno hown
  · exact ⟨[], _, rfl, failed_own d rfl⟩
  · obtain ⟨l, c', hr, hp, hn⟩ := callHandlers_completes d throws hmsg _
      { phase := _, keepAliveTimeout := _ } (fun _ _ _ => rfl) rfl rfl
    exact ⟨.appId ownAppId :: l, c', Option.bind_eq_some_iff.2 ⟨_, rfl, hr⟩, hp, hn⟩
  · refine callHandlers_completes d throws hmsg _ _ (fun s hs ho => ?_) rfl rfl
    exact absurd (List.any_eq_true.2 ⟨s, hs, ho⟩) hown

section Runs

instance (d : Delivery) : ∀ a, Decidable (Reported d a)
  | .appIdFailed err | .handlerFailed err => inferInstanceAs (Decidable (d.reports err = true))
  | .timeout | .appId _ | .handler => inferInstanceAs (Decidable True)

/-- Two handlers of a queue, one for the messages of others only. -/
def delivered (content : List UInt8) (noAck : Option Bool) : Delivery where
  noAck := noAck
  queueGivenName := "q"
  subscriptions :=
    [{ exchange := "e", queueName := some "q", handler := 0, ignoreOwn := true,
       queueGivenName := some "q" },
     { exchange := "e", queueName := some "q", handler := 1, queueGivenName := some "q" }]
  logger := true
  parse content := if content = [] then none else some (.message .absent)
  content := content
  appId := some "B"

/-- The timeout fires while the first handler is at work. -/
theorem finalised_late : ∃ c, (delivered [0x7b, 0x7d] none).machine.run
      (delivered [0x7b, 0x7d] none).start [.appId "A", .timeout, .handler, .handler] = some c
    ∧ c.issued = [.nack] ∧ Finalised (delivered [0x7b, 0x7d] none) c := by
  have hrun : (delivered [0x7b, 0x7d] none).machine.run (delivered [0x7b, 0x7d] none).start
    [.appId "A", .timeout, .handler, .handler] = some _ := rfl
  exact ⟨_, hrun, rfl, (finalised_iff hrun (.inl rfl)).2
    ⟨⟨.message .absent, rfl, nofun⟩, nofun, by decide⟩⟩

/-- Nothing is delivered with the message: `JSON.parse` throws, and the promise rejects. -/
theorem not_finalised : ¬ ∀ d : Delivery, ∀ l c, d.machine.run d.start l = some c → c.settled →
    Finalised d c := by
  intro hall
  have hf := hall (delivered [] none) [] _ rfl (.inr rfl)
  exact hf.resolves rfl

/-- Without acknowledgement, one is issued. -/
example : ((delivered [0x7b, 0x7d] (some true)).machine.run
    (delivered [0x7b, 0x7d] (some true)).start [.appId "A", .handler, .handler]).map (·.issued)
      = some [.ack] := rfl

end Runs

end RabbitMqConsumer

end NodeCqrs
