import Mathlib.Data.List.Nodup
import NodeCqrs.Lib.Parts
import NodeCqrs.Proofs.SagaEventHandler
import NodeCqrs.SagaTurns

/-!
# The events of one saga take turns

With a lock granted to one call of a saga at a time, what is done for the saga is a run of one that
has its events handled one after the other, whatever is done for other sagas in between. The turn of
that run is what the one call that works has left to send (`Inv.turns`).
-/

namespace NodeCqrs.SagaTurns

open SagaEventHandler (Effect step_cases)

variable {I V σ D : Type} {T : SagaOptions I V σ D}

section Calls

variable {β : Type} {s s' : SagaEventHandler I V σ D} {f : ℕ → SagaCall I V → Option β} {c : ℕ}
  {call : SagaCall I V}

/-- What `f` finds in the calls. -/
def found (f : ℕ → SagaCall I V → Option β) (s : SagaEventHandler I V σ D) (c : ℕ) : Option β :=
  (s.calls c).bind (f c)

theorem found_of_calls (hc : s.calls c = some call) : found f s c = f c call := by
  rw [found, hc, Option.bind_some]

theorem found_of_none (hc : s.calls c = none) : found f s c = none := by
  rw [found, hc, Option.bind_none]

/-- One call is another. -/
theorem found_update (call' : Option (SagaCall I V))
    (hcalls : s'.calls = Function.update s.calls c call') :
    found f s' = Function.update (found f s) c (call'.bind (f c)) := by
  funext c'
  by_cases hcc : c' = c
  · subst hcc
    rw [Function.update_self, found, hcalls, Function.update_self]
  · rw [Function.update_of_ne hcc, found, hcalls, Function.update_of_ne hcc, found]

theorem found_setCall : found f (s.setCall c call) = Function.update (found f s) c (f c call) :=
  found_update (some call) rfl

theorem found_finish (id : String) :
    found f (s.finish c id) = Function.update (found f s) c none := found_update none rfl

/-- What is found anew was found before, but of the one call. -/
theorem of_update_none {c' : ℕ} {b : β} (h : Function.update (found f s) c none c' = some b) :
    c' ≠ c ∧ found f s c' = some b := by
  by_cases hcc : c' = c
  · rw [hcc, Function.update_self] at h
    cases h
  · exact ⟨hcc, by rwa [Function.update_of_ne hcc] at h⟩

/-- A call that goes on unseen. -/
theorem found_setCall_eq {call' : SagaCall I V} (hc : s.calls c = some call)
    (hf : f c call' = f c call) : found f (s.setCall c call') = found f s := by
  rw [found_setCall, hf, ← found_of_calls (f := f) hc, Function.update_eq_self]

theorem found_finish_eq (hc : s.calls c = some call) (hf : f c call = none) (id : String) :
    found f (s.finish c id) = found f s := by
  rw [found_finish, ← hf, ← found_of_calls (f := f) hc, Function.update_eq_self]

/-- The promise of a saga that the call awaits. -/
def waits (_ : ℕ) (call : SagaCall I V) : Option ℕ :=
  if call.await = .saga then some call.saga else none

/-- The saga whose lock the call has asked for and not released. -/
def asks (_ : ℕ) (call : SagaCall I V) : Option String :=
  if call.await = .acquire ∨ Works call then some call.sagaId else none

/-- The saga the call has to itself. -/
def works (_ : ℕ) (call : SagaCall I V) : Option String :=
  if Works call then some call.sagaId else none

/-- The turn of the call, and of which saga. -/
def turnOf (T : SagaType I V σ) (c : ℕ) (call : SagaCall I V) : Option (String × Turn I V) :=
  if call.await = .send then
    some (call.sagaId, ⟨c, call.commands.map (T.attachContext call.event call.sagaOrigin)⟩)
  else none

/-- The next turn of a call whose commands are sent. -/
theorem found_send (commands : List (Command I V)) :
    found (turnOf T.toSagaType) (s.send c call commands) =
      Function.update (found (turnOf T.toSagaType) s) c ((Turn.next c
        (commands.map (T.attachContext call.event call.sagaOrigin))).map (call.sagaId, ·)) := by
  cases commands with
  | nil => exact found_finish _
  | cons command commands => exact found_setCall

end Calls

section Steps

variable {s s' : SagaEventHandler I V σ D} {a : SagaEventHandler.Action I V} {c : ℕ}
  {call : SagaCall I V}

/-- What is kept of the calls: one awaits its saga once, one that works has asked for the lock, and
no other works for its saga. -/
structure InTurn (s : SagaEventHandler I V σ D) : Prop where
  nodup : ∀ saga, (s.waiters saga).Nodup
  waits : ∀ saga, ∀ c ∈ s.waiters saga, found waits s c = some saga
  asked : ∀ c id, found asks s c = some id → c ∈ s.requests id
  alone : ∀ c c' id, found works s c = some id → found works s c' = some id → c = c'

theorem asks_of_works {id : String} (h : found works s c = some id) : found asks s c = some id := by
  obtain ⟨call, hc, hw⟩ := Option.bind_eq_some_iff.1 h
  rw [found_of_calls hc]
  unfold works at hw
  split_ifs at hw with hworks
  rw [asks, if_pos (.inr hworks), hw]

theorem InTurn.waiter (h : InTurn s) {saga : ℕ} (hw : c ∈ s.waiters saga)
    (hc : s.calls c = some call) : call.await = .saga ∧ call.saga = saga := by
  have hf := h.waits saga c hw
  rw [found_of_calls hc] at hf
  unfold SagaTurns.waits at hf
  split_ifs at hf with ha
  exact ⟨ha, Option.some.inj hf⟩

/-- Nobody has come. -/
theorem InTurn.frame (h : InTurn s) (hw : s'.waiters = s.waiters)
    (hwaits : found SagaTurns.waits s' = found SagaTurns.waits s)
    (hasks : ∀ c id, found asks s' c = some id →
      found asks s c = some id ∧ (c ∈ s.requests id → c ∈ s'.requests id))
    (hworks : ∀ c id, found works s' c = some id → found works s c = some id) : InTurn s' where
  nodup saga := hw ▸ h.nodup saga
  waits saga c hc := by
    rw [hwaits]
    exact h.waits saga c (hw ▸ hc)
  asked c id hc := (hasks c id hc).2 (h.asked c id (hasks c id hc).1)
  alone c c' id hc hc' := h.alone c c' id (hworks c id hc) (hworks c' id hc')

/-- One has gone. -/
theorem InTurn.gone (h : InTurn s) (hc : s.calls c = some call) (ha : call.await ≠ .saga)
    (call' : Option (SagaCall I V)) (hcalls : s'.calls = Function.update s.calls c call')
    (ha' : ∀ call ∈ call', call.await = .rejected) (hw : s'.waiters = s.waiters)
    (hr : s'.requests =
      Function.update s.requests call.sagaId ((s.requests call.sagaId).erase c)) : InTurn s' := by
  have hnone : ∀ {β : Type} {f : ℕ → SagaCall I V → Option β}, (∀ x ∈ call', f c x = none) →
      found f s' = Function.update (found f s) c none := fun hf => by
    rw [found_update _ hcalls, Option.bind_eq_none_iff.2 hf]
  refine h.frame hw ?_ (fun c' id hc' => ?_) fun c' id hc' => ?_
  · have hfound : found SagaTurns.waits s c = none := by
      rw [found_of_calls hc, SagaTurns.waits, if_neg ha]
    rw [hnone fun x hx => by simp [SagaTurns.waits, ha' x hx], ← hfound, Function.update_eq_self]
  · rw [hnone fun x hx => by simp [asks, Works, ha' x hx]] at hc'
    obtain ⟨hcc, hc'⟩ := of_update_none hc'
    refine ⟨hc', fun hm => ?_⟩
    rw [hr]
    by_cases hid : id = call.sagaId
    · subst hid
      rw [Function.update_self]
      exact (List.mem_erase_of_ne hcc).2 hm
    · rwa [Function.update_of_ne hid]
  · rw [hnone fun x hx => by simp [works, Works, ha' x hx]] at hc'
    exact (of_update_none hc').2

/-- One goes on from what it awaits, with its saga to itself as before. -/
theorem InTurn.goOn (h : InTurn s) (hc : s.calls c = some call) (hworks : Works call)
    (commands : List (Command I V)) : InTurn (s.send c call commands) := by
  have ha : call.await ≠ .saga := by
    rcases hworks with ha | ha <;> simp [ha]
  cases commands with
  | nil => exact h.gone hc ha none rfl nofun rfl rfl
  | cons command commands =>
    have hasks : found asks (s.send c call (command :: commands)) = found asks s :=
      found_setCall_eq hc (by
        rw [asks, if_pos (.inr (.inr rfl)), asks, if_pos (.inr hworks)])
    have hsame : found works (s.send c call (command :: commands)) = found works s :=
      found_setCall_eq hc (by
        rw [works, if_pos (.inr rfl), works, if_pos hworks])
    exact h.frame rfl (found_setCall_eq hc (by simp [SagaTurns.waits, ha]))
      (fun c' id hc' => ⟨hasks ▸ hc', fun hm => hm⟩) fun c' id hc' => hsame ▸ hc'

/-- One has its promise settled. -/
theorem InTurn.awaited (h : InTurn s) {saga : ℕ} {waiters : List ℕ}
    (hw : s.waiters saga = c :: waiters) (call' : SagaCall I V)
    (hcalls : s'.calls = Function.update s.calls c (some call'))
    (hw' : s'.waiters = Function.update s.waiters saga waiters)
    (hr : ∀ id, ∀ c ∈ s.requests id, c ∈ s'.requests id)
    (hasks : ∀ id ∈ asks c call', c ∈ s'.requests id) (hworks : ¬Works call') : InTurn s' := by
  have hnodup := h.nodup saga
  rw [hw] at hnodup
  have hsub : ∀ saga', ∀ c' ∈ s'.waiters saga', c' ≠ c ∧ c' ∈ s.waiters saga' := by
    intro saga' c' hc'
    rw [hw'] at hc'
    by_cases hsaga : saga' = saga
    · subst hsaga
      rw [Function.update_self] at hc'
      refine ⟨?_, hw ▸ List.mem_cons_of_mem _ hc'⟩
      rintro rfl
      exact (List.nodup_cons.1 hnodup).1 hc'
    · rw [Function.update_of_ne hsaga] at hc'
      refine ⟨?_, hc'⟩
      rintro rfl
      have hf := h.waits saga c' (hw ▸ List.mem_cons_self)
      rw [h.waits saga' c' hc'] at hf
      exact hsaga (Option.some.inj hf)
  have hnone : found works s' = Function.update (found works s) c none := by
    rw [found_update _ hcalls, Option.bind_some, works, if_neg hworks]
  refine ⟨fun saga' => ?_, fun saga' c' hc' => ?_, fun c' id hc' => ?_,
    fun c' c'' id hc' hc'' => ?_⟩
  · rw [hw']
    by_cases hsaga : saga' = saga
    · subst hsaga
      rw [Function.update_self]
      exact (List.nodup_cons.1 hnodup).2
    · rw [Function.update_of_ne hsaga]
      exact h.nodup saga'
  · rw [found_update _ hcalls, Function.update_of_ne (hsub saga' c' hc').1]
    exact h.waits saga' c' (hsub saga' c' hc').2
  · rw [found_update _ hcalls] at hc'
    by_cases hcc : c' = c
    · subst hcc
      rw [Function.update_self] at hc'
      exact hasks id hc'
    · rw [Function.update_of_ne hcc] at hc'
      exact hr id c' (h.asked c' id hc')
  · rw [hnone] at hc' hc''
    exact h.alone c' c'' id (of_update_none hc').2 (of_update_none hc'').2

/-- The lock of a saga is granted to one of its calls. -/
theorem InTurn.granted (h : InTurn s) (hc : s.calls c = some call) (ha : call.await = .acquire)
    (hC : Exclusive s (.acquired c)) : InTurn (s.setCall c { call with await := .handle }) := by
  have hwaits : found SagaTurns.waits (s.setCall c { call with await := .handle }) =
      found SagaTurns.waits s := found_setCall_eq hc (by simp [SagaTurns.waits, ha])
  have hasks : found asks (s.setCall c { call with await := .handle }) = found asks s :=
    found_setCall_eq hc (by simp [asks, Works, ha])
  have hother : ∀ c', found works s c' ≠ some call.sagaId := fun c' hc' => by
    obtain ⟨call', hcall, hw⟩ := Option.bind_eq_some_iff.1 hc'
    unfold works at hw
    split_ifs at hw with hworks
    exact hC call hc c' (h.asked c' _ (asks_of_works hc')) call' hcall hworks
  refine ⟨h.nodup, fun saga c' hc' => ?_, fun c' id hc' => ?_, fun c' c'' id hc' hc'' => ?_⟩
  · rw [hwaits]
    exact h.waits saga c' hc'
  · rw [hasks] at hc'
    exact h.asked c' id hc'
  · rw [found_setCall, works, if_pos (.inl rfl)] at hc' hc''
    by_cases hcc : c' = c <;> by_cases hcc' : c'' = c
    · rw [hcc, hcc']
    · rw [hcc, Function.update_self] at hc'
      rw [Function.update_of_ne hcc'] at hc''
      exact absurd (hc''.trans hc'.symm) (hother c'')
    · rw [hcc', Function.update_self] at hc''
      rw [Function.update_of_ne hcc] at hc'
      exact absurd (hc'.trans hc''.symm) (hother c')
    · rw [Function.update_of_ne hcc] at hc'
      rw [Function.update_of_ne hcc'] at hc''
      exact h.alone c' c'' id hc' hc''

/-- One comes. -/
theorem InTurn.comes (h : InTurn s) (hc : s.calls c = none) (call : SagaCall I V)
    (ha : call.await = .saga)
    (hcalls : s'.calls = Function.update s.calls c (some call))
    (hw : s'.waiters = Function.update s.waiters call.saga (s.waiters call.saga ++ [c]))
    (hr : s'.requests = s.requests) : InTurn s' := by
  have hnot : ∀ saga, c ∉ s.waiters saga := fun saga hm => by
    have hf := h.waits saga c hm
    rw [found_of_none hc] at hf
    cases hf
  have hasks : found asks s' = Function.update (found asks s) c none := by
    rw [found_update _ hcalls, Option.bind_some, asks, if_neg (by simp [Works, ha])]
  have hworks : found works s' = Function.update (found works s) c none := by
    rw [found_update _ hcalls, Option.bind_some, works, if_neg (by simp [Works, ha])]
  refine ⟨fun saga => ?_, fun saga c' hc' => ?_, fun c' id hc' => ?_, fun c' c'' id hc' hc'' => ?_⟩
  · rw [hw]
    by_cases hsaga : saga = call.saga
    · rw [hsaga, Function.update_self]
      exact List.concat_eq_append ▸ List.Nodup.concat (hnot _) (h.nodup _)
    · rw [Function.update_of_ne hsaga]
      exact h.nodup saga
  · rw [found_update _ hcalls]
    rw [hw] at hc'
    by_cases hcc : c' = c
    · subst hcc
      rw [Function.update_self, Option.bind_some, SagaTurns.waits, if_pos ha]
      by_cases hsaga : saga = call.saga
      · rw [hsaga]
      · rw [Function.update_of_ne hsaga] at hc'
        exact absurd hc' (hnot saga)
    · rw [Function.update_of_ne hcc]
      by_cases hsaga : saga = call.saga
      · rw [hsaga, Function.update_self] at hc'
        exact hsaga ▸ h.waits _ c' ((List.mem_append.1 hc').resolve_right fun hm =>
          hcc (List.mem_singleton.1 hm))
      · rw [Function.update_of_ne hsaga] at hc'
        exact h.waits saga c' hc'
  · rw [hasks] at hc'
    exact hr ▸ h.asked c' id (of_update_none hc').2
  · rw [hworks] at hc' hc''
    exact h.alone c' c'' id (of_update_none hc').2 (of_update_none hc'').2

theorem inTurn_step (h : InTurn s) (hC : Exclusive s a)
    (hst : SagaEventHandler.step T s a = some s') : InTurn s' := by
  cases step_cases hst with
  | stored | notStored | refused | made | failed =>
    exact h.frame rfl rfl (fun c id hc => ⟨hc, fun hm => hm⟩) fun c id hc => hc
  | @handle c event factory sagaId sagaOrigin sagasCache sagas saga hc hs ha =>
    exact h.comes hc { event, sagaId, sagaOrigin, saga } rfl rfl rfl rfl
  | @acquires saga c waiters state call hw hp hc =>
    refine h.awaited hw { call with await := .acquire } rfl rfl (fun id c' hc' => ?_)
      (fun id hid => ?_) (by simp [Works])
    · simp only [SagaEventHandler.acquire, SagaEventHandler.setCall]
      by_cases hid : id = call.sagaId
      · subst hid
        rw [Function.update_self]
        exact List.mem_append_left _ hc'
      · rwa [Function.update_of_ne hid]
    · rw [asks, if_pos (.inl rfl)] at hid
      obtain rfl := Option.some.inj hid
      simp only [SagaEventHandler.acquire, SagaEventHandler.setCall, Function.update_self]
      exact List.mem_append_right _ (List.mem_singleton_self c)
  | @rejected saga c waiters call hw hp hc =>
    exact h.awaited hw { call with await := .rejected } rfl rfl (fun _ _ hc' => hc')
      (by simp [asks, Works]) (by simp [Works])
  | @acquired c call hc ha => exact h.granted hc ha hC
  | @acquireRejects c call hc ha =>
    exact h.gone hc (by simp [ha]) (some _) rfl (by simp) rfl rfl
  | @handled c call commands state hc ha hp =>
    have ht : InTurn { s with
        sagas := s.sagas.set call.saga (.resolved (T.mutate state call.event)) } :=
      h.frame rfl rfl (fun c id hc => ⟨hc, fun hm => hm⟩) fun c id hc => hc
    exact ht.goOn hc (.inl ha) commands
  | @handleRejects c call hc ha => exact h.gone hc (by simp [ha]) none rfl (by simp) rfl rfl
  | @sent c call command commands hc ha hcs =>
    have ht : InTurn { s with
        sent := s.sent ++ [T.attachContext call.event call.sagaOrigin command] } :=
      h.frame rfl rfl (fun c id hc => ⟨hc, fun hm => hm⟩) fun c id hc => hc
    exact ht.goOn hc (.inr ha) commands
  | @sendRejects c call command commands hc ha hcs =>
    exact h.gone hc (by simp [ha]) none rfl (by simp) rfl rfl

/-- What is not recorded leaves the turns as they are. -/
theorem turns_step (h : InTurn s) (hst : SagaEventHandler.step T s a = some s')
    (he : entry T s a = none) :
    found (turnOf T.toSagaType) s' = found (turnOf T.toSagaType) s := by
  cases step_cases hst with
  | stored | notStored | refused | made | failed => rfl
  | @handle c event factory sagaId sagaOrigin sagasCache sagas saga hc hs ha =>
    have hnone : found (turnOf T.toSagaType) s c = none := found_of_none hc
    exact found_setCall.trans (Function.update_eq_iff.2 ⟨hnone.symm, fun _ _ => rfl⟩)
  | @acquires saga c waiters state call hw hp hc =>
    have ha : call.await = .saga := (h.waiter (hw ▸ List.mem_cons_self) hc).1
    exact found_setCall_eq (s := { s with waiters := _, requests := _ }) hc (by simp [turnOf, ha])
  | @rejected saga c waiters call hw hp hc =>
    have ha : call.await = .saga := (h.waiter (hw ▸ List.mem_cons_self) hc).1
    exact found_setCall_eq (s := { s with waiters := _ }) hc (by simp [turnOf, ha])
  | acquired hc ha => exact found_setCall_eq hc (by simp [turnOf, ha])
  | acquireRejects hc ha =>
    exact found_setCall_eq (s := { s with requests := _ }) hc (by simp [turnOf, ha])
  | handled hc ha hp => simp [entry, hc] at he
  | handleRejects hc ha => exact found_finish_eq hc (by simp [turnOf, ha]) _
  | sent hc ha hcs => simp [entry, hc, hcs] at he
  | sendRejects hc ha hcs => simp [entry, hc, hcs] at he

/-- The turn of a call that works is its own. -/
theorem of_turn {T : SagaType I V σ} {id : String} {t : Turn I V}
    (h : found (turnOf T) s c = some (id, t)) : t.c = c ∧ found works s c = some id := by
  obtain ⟨call, hc, hturn⟩ := Option.bind_eq_some_iff.1 h
  unfold turnOf at hturn
  split_ifs at hturn with ha
  obtain ⟨rfl, rfl⟩ := Prod.mk.inj (Option.some.inj hturn)
  exact ⟨rfl, by rw [found_of_calls hc, works, if_pos (.inr ha)]⟩

theorem map_eq_some {id id' : String} {turn : Option (Turn I V)} {t : Turn I V} :
    turn.map (id, ·) = some (id', t) ↔ id = id' ∧ turn = some t := by
  cases turn <;> simp

variable [DecidableEq (Command I V)]

theorem oneByOneStep_sent (T : SagaType I V σ) (command : Command I V)
    (commands : List (Command I V)) (resolved : Bool) :
    oneByOneStep T (some ⟨c, command :: commands⟩) (.sent c command resolved) =
      some (if resolved then Turn.next c commands else none) := if_pos ⟨rfl, rfl⟩

/-- What is recorded is the next step of its saga, by the call whose turn it is or whose it comes to
be. -/
theorem entry_step (hst : SagaEventHandler.step T s a = some s') {id : String}
    {e : Entry I V} (he : entry T s a = some (id, e)) : ∃ c, found works s c = some id
      ∧ ∃ t t', found (turnOf T.toSagaType) s c = t.map (id, ·)
        ∧ found (turnOf T.toSagaType) s' =
          Function.update (found (turnOf T.toSagaType) s) c (t'.map (id, ·))
        ∧ oneByOneStep T.toSagaType t e = some t' := by
  cases step_cases hst with
  | stored | notStored | refused | made | failed | handle | acquires | rejected | acquired
  | acquireRejects | handleRejects => cases he
  | @handled c call commands state hc ha hp =>
    obtain ⟨rfl, rfl⟩ : call.sagaId = id
        ∧ Entry.handled c call.event call.sagaOrigin commands = e := by
      simpa [entry, hc] using he
    refine ⟨c, ?_, none, _, ?_, found_send commands, rfl⟩
    · rw [found_of_calls hc, works, if_pos (.inl ha)]
    · rw [found_of_calls hc, turnOf, if_neg (by simp [ha])]
      rfl
  | @sent c call command commands hc ha hcs =>
    obtain ⟨rfl, rfl⟩ : call.sagaId = id
        ∧ Entry.sent c (T.attachContext call.event call.sagaOrigin command) true = e := by
      simpa [entry, hc, hcs] using he
    refine ⟨c, ?_, some ⟨c, _⟩, _, ?_, found_send (s := { s with sent := _ }) commands,
      oneByOneStep_sent ..⟩
    · rw [found_of_calls hc, works, if_pos (.inr ha)]
    · rw [found_of_calls hc, turnOf, if_pos ha, hcs]
      rfl
  | @sendRejects c call command commands hc ha hcs =>
    obtain ⟨rfl, rfl⟩ : call.sagaId = id
        ∧ Entry.sent c (T.attachContext call.event call.sagaOrigin command) false = e := by
      simpa [entry, hc, hcs] using he
    refine ⟨c, ?_, some ⟨c, _⟩, none, ?_, found_finish (s := { s with sent := _ }) _,
      oneByOneStep_sent _ _ (commands.map (T.attachContext call.event call.sagaOrigin)) false⟩
    · rw [found_of_calls hc, works, if_pos (.inr ha)]
    · rw [found_of_calls hc, turnOf, if_pos ha, hcs]
      rfl

end Steps

section Recorded

variable {s s' : SagaEventHandler I V σ D} {a : SagaEventHandler.Action I V}

/-- The command of a sending. -/
def sentOf : String × Entry I V → Option (Command I V)
  | (_, .sent _ command _) => some command
  | _ => none

theorem send_sent (s : SagaEventHandler I V σ D) (c : ℕ) (call : SagaCall I V)
    (commands : List (Command I V)) : (s.send c call commands).sent = s.sent := by
  cases commands <;> rfl

theorem send_delivered (s : SagaEventHandler I V σ D) (c : ℕ) (call : SagaCall I V)
    (commands : List (Command I V)) : (s.send c call commands).delivered = s.delivered := by
  cases commands <;> rfl

theorem sent_step (hst : SagaEventHandler.step T s a = some s') :
    s'.sent = s.sent ++ (entry T s a).toList.filterMap sentOf := by
  cases step_cases hst with
  | stored | notStored | refused | handle | made | failed | acquires | rejected | acquired
  | acquireRejects | handleRejects => exact (List.append_nil _).symm
  | handled hc ha hp =>
    rw [send_sent, entry, hc]
    exact (List.append_nil _).symm
  | sent hc ha hcs =>
    rw [send_sent, entry, hc, Option.bind_eq_bind, Option.bind_some, hcs]
    rfl
  | sendRejects hc ha hcs =>
    rw [entry, hc, Option.bind_eq_bind, Option.bind_some, hcs]
    rfl

/-- The event of a call. -/
def eventOf (_ : ℕ) (call : SagaCall I V) : Option (Event I V) := some call.event

/-- What was delivered is what the calls are for. -/
def Delivered (s : SagaEventHandler I V σ D) : Prop :=
  ∀ c, ∀ event ∈ found eventOf s c, event ∈ s.delivered

theorem Delivered.setCall {c : ℕ} {call call' : SagaCall I V}
    (h : Delivered s) (hc : s.calls c = some call) (he : call'.event = call.event) :
    Delivered (s.setCall c call') := by
  intro c' event hf
  rw [found_setCall_eq hc (congrArg some he)] at hf
  exact h c' event hf

theorem Delivered.finish (h : Delivered s) (c : ℕ) (id : String) :
    Delivered (s.finish c id) := by
  intro c' event hf
  rw [found_finish] at hf
  exact h c' event (of_update_none hf).2

theorem Delivered.send {c : ℕ} {call : SagaCall I V}
    (h : Delivered s) (hc : s.calls c = some call) (commands : List (Command I V)) :
    Delivered (s.send c call commands) := by
  cases commands with
  | nil => exact h.finish c call.sagaId
  | cons command commands => exact h.setCall hc rfl

theorem delivered_step (h : Delivered s)
    (hst : SagaEventHandler.step T s a = some s') : Delivered s' := by
  cases step_cases hst with
  | stored | notStored | made | failed => exact h
  | refused => exact fun c' event he => List.mem_append_left _ (h c' event he)
  | @handle c event factory sagaId sagaOrigin sagasCache sagas saga hc hs ha =>
    intro c' event' he
    rw [found_setCall] at he
    by_cases hcc : c' = c
    · subst hcc
      rw [Function.update_self] at he
      exact List.mem_append_right _ (List.mem_singleton.2 (Option.some.inj he).symm)
    · rw [Function.update_of_ne hcc] at he
      exact List.mem_append_left _ (h c' event' he)
  | acquires _ _ hc =>
    exact Delivered.setCall (s := { s with waiters := _, requests := _ }) h hc rfl
  | rejected _ _ hc => exact Delivered.setCall (s := { s with waiters := _ }) h hc rfl
  | acquired hc _ => exact h.setCall hc rfl
  | acquireRejects hc _ => exact Delivered.setCall (s := { s with requests := _ }) h hc rfl
  | @handled c call commands state hc _ _ =>
    have ht : Delivered { s with
      sagas := s.sagas.set call.saga (.resolved (T.mutate state call.event)) } := h
    exact ht.send hc commands
  | handleRejects _ _ => exact h.finish _ _
  | @sent c call command commands hc _ _ =>
    have ht : Delivered { s with
      sent := s.sent ++ [T.attachContext call.event call.sagaOrigin command] } := h
    exact ht.send hc commands
  | @sendRejects c call _ _ _ _ _ =>
    exact Delivered.finish (s := { s with sent := _ }) h c call.sagaId

theorem delivered_mono (hst : SagaEventHandler.step T s a = some s') :
    s.delivered ⊆ s'.delivered := by
  cases step_cases hst with
  | refused | handle => exact List.subset_append_left ..
  | handled | sent => exact (send_delivered ..).symm ▸ List.Subset.refl _
  | stored | notStored | made | failed | acquires | rejected | acquired | acquireRejects
  | handleRejects | sendRejects => exact List.Subset.refl _

/-- What is handled is the event of a call of the saga. -/
theorem of_entry {id : String} {c : ℕ} {event : Event I V}
    {sagaOrigin : String} {commands : List (Command I V)}
    (he : entry T s a = some (id, .handled c event sagaOrigin commands)) :
    ∃ call, s.calls c = some call ∧ call.sagaId = id ∧ call.event = event
      ∧ call.sagaOrigin = sagaOrigin := by
  cases a with
  | handled c' commands' =>
    rcases commands' with _ | commands'
    · cases he
    · obtain ⟨call, hc, heq⟩ := Option.bind_eq_some_iff.1 he
      cases heq
      exact ⟨call, hc, rfl, rfl, rfl⟩
  | sent c' resolved =>
    obtain ⟨call, hc, heq⟩ := Option.bind_eq_some_iff.1 he
    obtain ⟨command, -, heq⟩ := Option.bind_eq_some_iff.1 heq
    cases heq
  | commitEvents | handle | settled | awaited | acquired | acquireRejects => cases he

/-- The calls and what is recorded of them. -/
structure Recorded (T : SagaOptions I V σ D) (s : Sys I V σ D) : Prop where
  began : SagaEventHandler.Began T s.handler
  delivered : Delivered s.handler
  sent : s.handler.sent = s.log.filterMap sentOf
  handled : ∀ id c event sagaOrigin commands,
    (id, Entry.handled c event sagaOrigin commands) ∈ s.log → event ∈ s.handler.delivered
      ∧ ∃ factory, T.sagaFor event = .ok (factory, id, sagaOrigin)

theorem Recorded.step {s s' : Sys I V σ D} (h : Recorded T s) (hst : step T s a = some s') :
    Recorded T s' := by
  obtain ⟨handler, hstep, heq⟩ := Option.bind_eq_some_iff.1 hst
  obtain rfl := Option.some.inj heq
  have hmono := delivered_mono hstep
  refine ⟨SagaEventHandler.began_step h.began hstep, delivered_step h.delivered hstep, ?_,
    fun id c event sagaOrigin commands hm => ?_⟩
  · rw [List.filterMap_append, ← h.sent]
    exact sent_step hstep
  · rcases List.mem_append.1 hm with hm | hm
    · obtain ⟨hd, hf⟩ := h.handled id c event sagaOrigin commands hm
      exact ⟨hmono hd, hf⟩
    · obtain ⟨call, hc, rfl, rfl, rfl⟩ := of_entry (Option.mem_toList.1 hm)
      exact ⟨hmono (h.delivered c _ (found_of_calls hc)), h.began c call hc⟩

end Recorded

section Runs

variable [DecidableEq (Command I V)] {s s' : Sys I V σ D} {a : SagaEventHandler.Action I V}

/-- The part of each saga is a run up to the turn of the call that sends. -/
structure Inv (T : SagaOptions I V σ D) (s : Sys I V σ D) : Prop where
  inTurn : InTurn s.handler
  turns : ∀ id, ∃ turn, (oneByOne T.toSagaType).run none (part id s.log) = some turn
    ∧ ∀ t, turn = some t ↔ found (turnOf T.toSagaType) s.handler t.c = some (id, t)

/-- What is done for a saga is its next step, and it is nothing to the others. -/
theorem Inv.turns_concat (hi : Inv T s) {s' : SagaEventHandler I V σ D}
    (hst : SagaEventHandler.step T s.handler a = some s') {id' : String} {e : Entry I V}
    (he : entry T s.handler a = some (id', e)) (id : String) :
    ∃ turn, (oneByOne T.toSagaType).run none (part id (s.log ++ [(id', e)])) = some turn
      ∧ ∀ t, turn = some t ↔ found (turnOf T.toSagaType) s' t.c = some (id, t) := by
  obtain ⟨turn, hrun, hturn⟩ := hi.turns id
  obtain ⟨c, hworks, t, t', ht, ht', hnext⟩ := entry_step hst he
  have hself : found (turnOf T.toSagaType) s' c = t'.map (id', ·) := by
    rw [ht', Function.update_self]
  have hother : ∀ c', c' ≠ c → found (turnOf T.toSagaType) s' c' =
      found (turnOf T.toSagaType) s.handler c' := fun c' hc' => by
    rw [ht', Function.update_of_ne hc']
  by_cases hid : id' = id
  · subst hid
    have hmine : ∀ u, found (turnOf T.toSagaType) s.handler u.c = some (id', u) → u.c = c :=
      fun u hu => hi.inTurn.alone u.c c id' (of_turn hu).2 hworks
    obtain rfl : turn = t := by
      refine Option.ext fun u => (hturn u).trans ⟨fun hu => ?_, fun hu => ?_⟩
      · rw [hmine u hu, ht] at hu
        exact (map_eq_some.1 hu).2
      · have hc := ht.trans (map_eq_some.2 ⟨rfl, hu⟩)
        rwa [(of_turn hc).1]
    refine ⟨t', run_part_concat hrun hnext, fun u => ⟨fun hu => ?_, fun hu => ?_⟩⟩
    · have hc := hself.trans (map_eq_some.2 ⟨rfl, hu⟩)
      rwa [(of_turn hc).1]
    · by_cases huc : u.c = c
      · rw [huc, hself] at hu
        exact (map_eq_some.1 hu).2
      · rw [hother _ huc] at hu
        exact absurd (hmine u hu) huc
  · refine ⟨turn, by rwa [part_concat_of_ne hid], fun u => (hturn u).trans ?_⟩
    by_cases huc : u.c = c
    · rw [huc, ht, hself, map_eq_some, map_eq_some]
      exact ⟨fun h => absurd h.1 hid, fun h => absurd h.1 hid⟩
    · rw [hother _ huc]

theorem Inv.step (hi : Inv T s) (hC : Exclusive s.handler a) (hst : step T s a = some s') :
    Inv T s' := by
  obtain ⟨handler, hstep, heq⟩ := Option.bind_eq_some_iff.1 hst
  obtain rfl := Option.some.inj heq
  refine ⟨inTurn_step hi.inTurn hC hstep, fun id => ?_⟩
  rcases he : entry T s.handler a with _ | ⟨id', e⟩
  · obtain ⟨turn, hrun, hturn⟩ := hi.turns id
    rw [turns_step hi.inTurn hstep he]
    exact ⟨turn, (List.append_nil s.log).symm ▸ hrun, hturn⟩
  · exact hi.turns_concat hstep he id

/-- What holds of the handler at any time. -/
structure OneByOne (T : SagaOptions I V σ D) (s : Sys I V σ D) : Prop where
  /-- What is done for a saga is done by one that has one event handled after the other. -/
  turns : ∀ id, ∃ turn, (oneByOne T.toSagaType).run none (part id s.log) = some turn
    ∧ ∀ t ∈ turn, ∃ call, s.handler.calls t.c = some call ∧ call.sagaId = id ∧ call.await = .send
  /-- These are the commands sent. -/
  sent : s.handler.sent = s.log.filterMap sentOf
  /-- These are the events of the saga, as they were delivered. -/
  handled : ∀ id c event sagaOrigin commands,
    (id, Entry.handled c event sagaOrigin commands) ∈ s.log → event ∈ s.handler.delivered
      ∧ ∃ factory, T.sagaFor event = .ok (factory, id, sagaOrigin)

/-- With an exclusive lock, the commands of an event are sent in order, with what they have of it,
and no other event of the saga is handled, and no command sent for one, before the last of them is
sent or one cannot be. -/
theorem one_by_one {eventStore : D}
    (h : (machine T eventStore).ReachIf (fun s a => Exclusive s.handler a) s) : OneByOne T s := by
  have hi : Inv T s ∧ Recorded T s := by
    refine h.invariant (P := fun s => Inv T s ∧ Recorded T s) (fun t h0 => ?_)
      fun _ _ _ hi hC hst => ⟨hi.1.step hC hst, hi.2.step hst⟩
    obtain rfl : t = { handler := { eventStore } } := h0
    exact ⟨⟨⟨fun _ => List.nodup_nil, nofun, nofun, nofun⟩,
      fun id => ⟨none, rfl, fun t => ⟨nofun, nofun⟩⟩⟩, ⟨nofun, nofun, rfl, nofun⟩⟩
  refine ⟨fun id => ?_, hi.2.sent, hi.2.handled⟩
  obtain ⟨turn, hrun, hturn⟩ := hi.1.turns id
  refine ⟨turn, hrun, fun t ht => ?_⟩
  obtain ⟨call, hc, hf⟩ := Option.bind_eq_some_iff.1 ((hturn t).1 ht)
  unfold turnOf at hf
  split_ifs at hf with ha
  exact ⟨call, hc, congrArg Prod.fst (Option.some.inj hf), ha⟩

instance (s : SagaEventHandler I V σ D) : ∀ a, Decidable (Exclusive s a)
  | .acquired c => inferInstanceAs (Decidable (∀ call ∈ s.calls c, ∀ c' ∈ s.requests call.sagaId,
      ∀ call' ∈ s.calls c', ¬Works call'))
  | .commitEvents .. | .handle .. | .settled .. | .awaited _ | .acquireRejects _ | .handled ..
  | .sent .. => isTrue trivial

/-- A command of the first event cannot be sent, while another saga sends its own; then the payment
is handled. -/
def interleaved : List (SagaEventHandler.Action String ℕ) := [
  .handle 0 { id := some "1", type := "ordered", payload := 0 },
  .handle 1
    { id := some "2", type := "paid", payload := 5, sagaOrigins := some [("Payments", "1")] },
  .handle 2 { id := some "3", type := "ordered", payload := 0 },
  .settled 0 true, .settled 1 true, .awaited 0, .awaited 0, .awaited 1, .acquired 0, .acquired 2,
  .handled 0 (some [{ type := "bill", payload := 5 }, { type := "remind", payload := 5 },
    { type := "close", payload := 5 }]),
  .handled 2 (some [{ type := "bill", payload := 7 }]), .sent 0 true, .sent 2 true, .sent 0 false,
  .acquired 1, .handled 1 (some [{ type := "ship", payload := 1 }])]

theorem one_by_one_interleaved : ∃ s : Sys String ℕ ℕ (List (Event String ℕ)),
    OneByOne SagaEventHandler.payments s
      ∧ s.handler.sent.map (fun command => (command.type, command.payload)) =
        [("bill", 5), ("bill", 7), ("remind", 5)]
      ∧ (s.handler.calls 1).map (fun call => call.commands.map (·.type)) = some ["ship"] := by
  obtain ⟨s, hs, hsent, hcall⟩ : ∃ s,
      (machine SagaEventHandler.payments []).run { handler := { eventStore := [] } } interleaved =
        some s
      ∧ s.handler.sent.map (fun command => (command.type, command.payload)) =
        [("bill", 5), ("bill", 7), ("remind", 5)]
      ∧ (s.handler.calls 1).map (fun call => call.commands.map (·.type)) = some ["ship"] :=
    ⟨_, rfl, rfl, rfl⟩
  have h := (Machine.ReachIf.init
    (C := fun (s : Sys String ℕ ℕ (List (Event String ℕ))) a => Exclusive s.handler a)
    (M := machine SagaEventHandler.payments []) rfl).run (by decide) hs
  exact ⟨s, one_by_one h, hsent, hcall⟩

end Runs

end NodeCqrs.SagaTurns
