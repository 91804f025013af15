import Mathlib.Tactic.Common
import NodeCqrs.Projection
import NodeCqrs.Proofs.SqliteEventLocker

/-!
# The checkpoint of a projection

The locker's checkpoint is safe when everything at or before it has been handled (`Shared`). A
restore keeps it so if no event it is refused is still in progress: it then goes through the log in
order and each event it passes has been handled (`CallInv`). A live `project()` keeps it so only if
the earlier events have been marked before it records its own.
-/

namespace NodeCqrs

theorem getElem?_isPrefix {α : Type*} {l l' : List α} {i : ℕ} {a : α} (h : l <+: l')
    (hi : l[i]? = some a) : l'[i]? = some a := by
  obtain ⟨t, rfl⟩ := h
  obtain ⟨hlt, -⟩ := List.getElem?_eq_some_iff.1 hi
  rwa [List.getElem?_append_left hlt]

variable {I V M K : Type} [DecidableEq K]

namespace Projection

variable {P : Projection I V M K}

/-- What the log, the locker and the handlers that have completed are to each other: event ids
tell the logged events apart, a processed event's handler has completed, and so have all up to the
checkpoint. -/
structure Shared (P : Projection I V M K) (s : Sys I V M K) : Prop where
  ids : (s.log.map P.getEventId).Nodup
  rows : ∀ k, s.locker.eventLock k ≠ none → k ∈ s.log.map P.getEventId
  processed : ∀ (i : ℕ) event, s.log[i]? = some event →
    s.locker.Processed (P.getEventId event) → i ∈ s.completed
  checkpoint : ∀ event, s.locker.getLastEvent = some event →
    ∃ i, s.log[i]? = some event ∧ P.CompletedBefore s (i + 1)

omit [DecidableEq K] in
theorem CompletedBefore.mono {s s' : Sys I V M K} {n : ℕ} (h : P.CompletedBefore s n)
    (hn : n ≤ s.log.length) (hlog : s.log <+: s'.log) (hc : s.completed ⊆ s'.completed) :
    P.CompletedBefore s' n := by
  intro i event hi he ht
  obtain ⟨l, hl⟩ := hlog
  rw [← hl, List.getElem?_append_left (by omega)] at he
  exact hc (h i event hi he ht)

omit [DecidableEq K] in
theorem Shared.eq_of_getEventId {s : Sys I V M K} (hS : Shared P s) {i j : ℕ} {e e' : Event I V}
    (hi : s.log[i]? = some e) (hj : s.log[j]? = some e')
    (h : P.getEventId e = P.getEventId e') : i = j := by
  have hi' : (s.log.map P.getEventId)[i]? = some (P.getEventId e) := by simp [hi]
  have hj' : (s.log.map P.getEventId)[j]? = some (P.getEventId e) := by simp [hj, h]
  obtain ⟨hlt, -⟩ := List.getElem?_eq_some_iff.1 hi'
  exact (List.getElem?_inj hlt hS.ids).1 (hi'.trans hj'.symm)

/-- What an await of `_project` needs to be at: its handler has completed once it is past it, and
before it records the event, those before have. -/
def At (s : Sys I V M K) (event : Logged I V) (awaiting : Projecting) : Prop :=
  s.log[event.2]? = some event.1
  ∧ (awaiting = .markAsProjected ∨ awaiting = .markAsLastEvent → event.2 ∈ s.completed)

omit [DecidableEq K] in
/-- What the locker may come to hold while the log stays: more processed events, if their handlers
have completed, and another checkpoint, if everything up to it is handled. -/
theorem Shared.of_locker {s s' : Sys I V M K} (hS : Shared P s) (hlog : s'.log = s.log)
    (hc : s.completed ⊆ s'.completed)
    (hrows : ∀ k, s'.locker.eventLock k ≠ none → k ∈ s.log.map P.getEventId)
    (hp : ∀ (i : ℕ) event, s.log[i]? = some event →
      s'.locker.Processed (P.getEventId event) →
        s.locker.Processed (P.getEventId event) ∨ i ∈ s'.completed)
    (hl : ∀ event, s'.locker.getLastEvent = some event → s.locker.getLastEvent = some event
      ∨ ∃ i, s.log[i]? = some event ∧ P.CompletedBefore s' (i + 1)) : Shared P s' := by
  refine ⟨by rw [hlog]; exact hS.ids, by rw [hlog]; exact hrows, ?_, ?_⟩
  · rw [hlog]
    intro i event he h
    exact (hp i event he h).elim (fun h => hc (hS.processed i event he h)) id
  · rw [hlog]
    intro event he
    rcases hl event he with h | h
    · obtain ⟨i, hi, hb⟩ := hS.checkpoint event h
      obtain ⟨hlt, -⟩ := List.getElem?_eq_some_iff.1 hi
      exact ⟨i, hi, hb.mono hlt (hlog ▸ List.prefix_rfl) hc⟩
    · exact h

/-- An await of `_project` keeps the checkpoint safe when, if it moves it, the events before have
been handled. If it returns, the event's handler has completed or the event was in progress. -/
theorem project_spec {s s' : Sys I V M K} {event : Logged I V} {record : Bool}
    {awaiting : Projecting} {o : Outcome} (hS : Shared P s) (ha : At s event awaiting)
    (hlast : awaiting = .markAsLastEvent → P.CompletedBefore s event.2)
    (h : P.project s event record awaiting = (s', o)) :
    Shared P s' ∧ s'.log = s.log ∧ s'.calls = s.calls ∧ s.completed ⊆ s'.completed
    ∧ (∀ awaiting', o = .awaits awaiting' → At s' event awaiting')
    ∧ (o = .returns → event.2 ∈ s'.completed ∨ awaiting = .tryMarkAsProjecting
      ∧ s.locker.InProgress P.eventLockTtl s.now (P.getEventId event.1)) := by
  obtain ⟨hlog, hdone⟩ := ha
  cases awaiting with
  | tryMarkAsProjecting =>
    simp only [project, Prod.mk.injEq] at h
    obtain ⟨rfl, rfl⟩ := h
    obtain ⟨hp, hr, hl⟩ := s.locker.tryMarkAsProjecting_spec P.eventLockTtl s.now
      (P.getEventId event.1)
    refine ⟨hS.of_locker rfl (List.Subset.refl _) (fun k hk => ?_)
      (fun i e _ h => .inl ((hp _).1 h)) (fun e he => .inl (hl ▸ he)), rfl, rfl,
      List.Subset.refl _, fun awaiting' ho => ?_, fun ho => ?_⟩
    · by_cases hke : k = P.getEventId event.1
      · exact hke ▸ List.mem_map_of_mem (List.mem_of_getElem? hlog)
      · exact hS.rows k (hr k hke ▸ hk)
    · split_ifs at ho
      cases ho
      exact ⟨hlog, by simp⟩
    · split_ifs at ho with hob
      rcases SqliteEventLocker.tryMarkAsProjecting_refused (by simpa using hob) with h | h
      · exact .inl (hS.processed _ _ hlog h)
      · exact .inr ⟨rfl, h⟩
  | handler =>
    simp only [project, Prod.mk.injEq] at h
    obtain ⟨rfl, rfl⟩ := h
    refine ⟨hS.of_locker rfl (List.subset_cons_self ..) hS.rows (fun i e _ h => .inl h)
      (fun e he => .inl he), rfl, rfl, List.subset_cons_self .., fun awaiting' ho => ?_,
      fun ho => by simp at ho⟩
    exact ⟨hlog, fun _ => by simp⟩
  | markAsProjected =>
    have hev := hdone (.inl rfl)
    simp only [project] at h
    split at h
    · rename_i locker hm
      simp only [Prod.mk.injEq] at h
      obtain ⟨rfl, rfl⟩ := h
      obtain ⟨hp, hr, hl⟩ := SqliteEventLocker.markAsProjected_spec hm
      refine ⟨hS.of_locker rfl (List.Subset.refl _) (fun k hk => hS.rows k (hr k hk))
        (fun i e he h => ?_) (fun e he => .inl (hl ▸ he)), rfl, rfl, List.Subset.refl _,
        fun awaiting' ho => ⟨hlog, fun _ => hev⟩, fun _ => .inl hev⟩
      rcases (hp _).1 h with hk | h
      · exact .inr (hS.eq_of_getEventId he hlog hk ▸ hev)
      · exact .inl h
    · simp only [Prod.mk.injEq] at h
      obtain ⟨rfl, rfl⟩ := h
      exact ⟨hS, rfl, rfl, List.Subset.refl _, fun _ ho => by simp at ho, fun ho => by simp at ho⟩
  | markAsLastEvent =>
    simp only [project, Prod.mk.injEq] at h
    obtain ⟨rfl, rfl⟩ := h
    have hev := hdone (.inr rfl)
    refine ⟨hS.of_locker rfl (List.Subset.refl _) hS.rows (fun i e _ h => .inl h)
      (fun e he => .inr ⟨event.2, ?_, fun i e hi hie ht => ?_⟩), rfl, rfl, List.Subset.refl _,
      fun _ ho => by simp at ho, fun _ => .inl hev⟩
    · simp only [Sys.setLocker, SqliteEventLocker.getLastEvent_markAsLastEvent,
        Option.some.injEq] at he
      exact he ▸ hlog
    · rcases Nat.lt_succ_iff_lt_or_eq.1 hi with hi | rfl
      · exact hlast rfl i e hi hie ht
      · exact hev

/-- What a call under way knows. A restore's stream goes through the handled events of the log it
read, in order: what is not left of it has been handled. -/
def CallInv (P : Projection I V M K) (s : Sys I V M K) : ProjectionCall I V M → Prop
  | .project event _ awaiting => At s event awaiting
  | .getLastEvent => True
  | .getEventsByTypes lastEvent => ∀ event, lastEvent = some event →
      ∃ i, s.log[i]? = some event ∧ P.CompletedBefore s (i + 1)
  | .restoring todo awaiting last length =>
    length ≤ s.log.length
    ∧ (∀ event ∈ todo, s.log[event.2]? = some event.1 ∧ event.2 < length)
    ∧ todo.Pairwise (·.2 < ·.2)
    ∧ (∀ i event, i < length → s.log[i]? = some event → event.type ∈ P.handles →
        i ∈ s.completed ∨ i ∈ todo.map Prod.snd)
    ∧ (∀ event ∈ todo.head?, At s event awaiting)
    ∧ (∀ event ∈ last, ∃ i, i < length ∧ s.log[i]? = some event)

omit [DecidableEq K] in
theorem At.mono {s s' : Sys I V M K} {event : Logged I V} {awaiting : Projecting}
    (h : At s event awaiting) (hlog : s.log <+: s'.log) (hc : s.completed ⊆ s'.completed) :
    At s' event awaiting :=
  ⟨getElem?_isPrefix hlog h.1, fun ha => hc (h.2 ha)⟩

omit [DecidableEq K] in
/-- What a call knows stays so while the log grows and handlers complete. -/
theorem CallInv.mono {s s' : Sys I V M K} {call : ProjectionCall I V M} (h : CallInv P s call)
    (hlog : s.log <+: s'.log) (hc : s.completed ⊆ s'.completed) : CallInv P s' call := by
  cases call with
  | project event metadata awaiting => exact At.mono h hlog hc
  | getLastEvent => trivial
  | getEventsByTypes lastEvent =>
    intro event he
    obtain ⟨i, hi, hb⟩ := h event he
    obtain ⟨hlt, -⟩ := List.getElem?_eq_some_iff.1 hi
    exact ⟨i, getElem?_isPrefix hlog hi, hb.mono hlt hlog hc⟩
  | restoring todo awaiting last length =>
    obtain ⟨hlen, hmem, hord, hdone, hhead, hlast⟩ := h
    refine ⟨Nat.le_trans hlen hlog.length_le, fun e he => ?_, hord, fun i e hi he ht => ?_,
      fun e he => (hhead e he).mono hlog hc, fun e he => ?_⟩
    · exact ⟨getElem?_isPrefix hlog (hmem e he).1, (hmem e he).2⟩
    · obtain ⟨l, hl⟩ := hlog
      rw [← hl, List.getElem?_append_left (by omega)] at he
      exact (hdone i e hi he ht).imp_left (hc ·)
    · obtain ⟨i, hi, hie⟩ := hlast e he
      exact ⟨i, hi, getElem?_isPrefix hlog hie⟩

structure Inv (P : Projection I V M K) (s : Sys I V M K) : Prop where
  shared : Shared P s
  calls : ∀ c p call, s.calls c = some (p, call) → CallInv P s call

omit [DecidableEq K] in
theorem inv_init {s : Sys I V M K} (h : Init s) : Inv P s := by
  obtain ⟨h1, h2, h3, h4⟩ := h
  refine ⟨⟨by simp [h1], fun k hk => by simp [h2] at hk, fun i e he => by simp [h1] at he,
    fun e he => by simp [h2, SqliteEventLocker.getLastEvent] at he⟩,
    fun c p call hc => by simp [h3] at hc⟩

omit [DecidableEq K] in
/-- A step of a call keeps what the others know. -/
theorem Inv.set {s s' : Sys I V M K} (hI : Inv P s) (hS : Shared P s') (hlog : s.log <+: s'.log)
    (hc : s.completed ⊆ s'.completed) (hcalls : s'.calls = s.calls) {c p : ℕ}
    {call : ProjectionCall I V M} (hcall : CallInv P s' call) : Inv P (s'.set c p call) := by
  refine ⟨⟨hS.ids, hS.rows, hS.processed, hS.checkpoint⟩, fun c' p' call' h => ?_⟩
  by_cases hcc : c' = c
  · simp only [Sys.set, hcc, Function.update_self, Option.some.injEq, Prod.mk.injEq] at h
    exact h.2 ▸ hcall
  · simp only [Sys.set, Function.update_of_ne hcc, hcalls] at h
    exact (hI.calls c' p' call' h).mono hlog hc

omit [DecidableEq K] in
theorem Inv.clear {s s' : Sys I V M K} (hI : Inv P s) (hS : Shared P s') (hlog : s.log <+: s'.log)
    (hc : s.completed ⊆ s'.completed) (hcalls : s'.calls = s.calls) {c : ℕ} :
    Inv P (s'.clear c) := by
  refine ⟨⟨hS.ids, hS.rows, hS.processed, hS.checkpoint⟩, fun c' p' call' h => ?_⟩
  by_cases hcc : c' = c
  · simp [Sys.clear, hcc] at h
  · simp only [Sys.clear, Function.update_of_ne hcc, hcalls] at h
    exact (hI.calls c' p' call' h).mono hlog hc

section Steps

/-- Each event is logged under an id of its own. -/
def OwnId (P : Projection I V M K) (s : Sys I V M K) : Action I V M → Prop
  | .append event => P.getEventId event ∉ s.log.map P.getEventId
  | _ => True

/-- The event a restore is about to try. -/
def tries : ProjectionCall I V M → Option (Event I V)
  | .restoring (event :: _) .tryMarkAsProjecting _ _ => some event.1
  | _ => none

/-- The event a live call is about to record. -/
def records : ProjectionCall I V M → Option (Logged I V)
  | .project event _ .markAsLastEvent => some event
  | _ => none

/-- No restore asks for an event that is in progress. -/
def Unobstructed (P : Projection I V M K) (s : Sys I V M K) : Action I V M → Prop
  | .next c => ∀ event ∈ (s.calls c).bind (tries ·.2),
      ¬ s.locker.InProgress P.eventLockTtl s.now (P.getEventId event)
  | _ => True

/-- `project()` records its event when all the earlier ones have been marked as projected. -/
def InOrder (P : Projection I V M K) (s : Sys I V M K) : Action I V M → Prop
  | .next c => ∀ event ∈ (s.calls c).bind (records ·.2), ∀ e ∈ s.log.take event.2,
      e.type ∈ P.handles → s.locker.Processed (P.getEventId e)
  | _ => True

instance (s : Sys I V M K) : ∀ a, Decidable (OwnId P s a)
  | .append event => inferInstanceAs (Decidable (P.getEventId event ∉ s.log.map P.getEventId))
  | .tick _ | .project .. | .restore .. | .next _ | .rejects _ | .returns _ | .crash _ =>
    inferInstanceAs (Decidable True)

instance (s : Sys I V M K) : ∀ a, Decidable (Unobstructed P s a)
  | .next c => inferInstanceAs (Decidable (∀ event ∈ (s.calls c).bind (tries ·.2),
      ¬ s.locker.InProgress P.eventLockTtl s.now (P.getEventId event)))
  | .tick _ | .append _ | .project .. | .restore .. | .rejects _ | .returns _ | .crash _ =>
    inferInstanceAs (Decidable True)

instance (s : Sys I V M K) : ∀ a, Decidable (InOrder P s a)
  | .next c => inferInstanceAs (Decidable (∀ event ∈ (s.calls c).bind (records ·.2),
      ∀ e ∈ s.log.take event.2, e.type ∈ P.handles → s.locker.Processed (P.getEventId e)))
  | .tick _ | .append _ | .project .. | .restore .. | .rejects _ | .returns _ | .crash _ =>
    inferInstanceAs (Decidable True)

omit [DecidableEq K] in
/-- The handled events from place `n` on, all before having been handled. -/
theorem callInv_stream {s : Sys I V M K} {n : ℕ} (hn : P.CompletedBefore s n) :
    CallInv P s (.restoring (s.log.zipIdx.filter fun e => e.1.type ∈ P.handles && n ≤ e.2)
      .tryMarkAsProjecting none s.log.length) := by
  refine ⟨Nat.le_refl _, fun e he => ?_, ?_, fun i e hi hie ht => ?_, fun e he => ?_, by simp⟩
  · have := List.mem_zipIdx_iff_getElem?.1 (List.mem_of_mem_filter he)
    exact ⟨this, (List.getElem?_eq_some_iff.1 this).1⟩
  · refine List.Pairwise.filter _ ?_
    have : (s.log.zipIdx.map Prod.snd).Pairwise (· < ·) := by
      rw [List.zipIdx_map_snd]
      exact List.pairwise_lt_range'
    exact List.pairwise_map.1 this
  · by_cases hin : n ≤ i
    · refine .inr (List.mem_map.2 ⟨(e, i), List.mem_filter.2 ⟨?_, by simp [ht, hin]⟩, rfl⟩)
      exact List.mem_zipIdx_iff_getElem?.2 hie
    · exact .inl (hn i e (by omega) hie ht)
  · have := List.mem_zipIdx_iff_getElem?.1 (List.mem_of_mem_filter (List.mem_of_mem_head? he))
    exact ⟨this, by simp⟩

/-- A restore reads on from its checkpoint. -/
theorem callInv_getEventsByTypes {s : Sys I V M K} (hS : Shared P s)
    {lastEvent : Option (Event I V)} {todo : List (Logged I V)}
    (hl : CallInv P s (.getEventsByTypes lastEvent))
    (h : P.getEventsByTypes s.log lastEvent = some todo) :
    CallInv P s (.restoring todo .tryMarkAsProjecting none s.log.length) := by
  unfold getEventsByTypes at h
  rcases lastEvent with _ | event
  · simp only [Option.some.injEq] at h
    have := callInv_stream (P := P) (s := s) (n := 0) fun i e hi => absurd hi (by omega)
    simpa [← h] using this
  · obtain ⟨i, hi, hb⟩ := hl event rfl
    simp only [] at h
    split_ifs at h with hid
    rcases hf : s.log.findIdx? (fun e => decide (P.getEventId e = P.getEventId event)) with _ | j
    · rw [List.findIdx?_eq_none_iff] at hf
      simpa using hf event (List.mem_of_getElem? hi)
    · obtain ⟨hlt, hp, -⟩ := List.findIdx?_eq_some_iff_getElem.1 hf
      have hj := List.getElem?_eq_getElem hlt
      have hij := hS.eq_of_getEventId hj hi (by simpa using hp)
      simp only [hf, Option.some.injEq] at h
      rw [← h, hij]
      exact callInv_stream hb

theorem inv_next {s s' : Sys I V M K} {c p : ℕ} {call : ProjectionCall I V M} (hI : Inv P s)
    (hU : Unobstructed P s (.next c)) (hO : InOrder P s (.next c))
    (hc : s.calls c = some (p, call)) (h : P.next s c p call = some s') : Inv P s' := by
  have hcall := hI.calls c p call hc
  cases call with
  | project event metadata awaiting =>
    simp only [next] at h
    rcases hp : P.project s event (P.shouldRecordLastEvent event.1 metadata) awaiting with ⟨t, o⟩
    have hlast : awaiting = .markAsLastEvent → P.CompletedBefore s event.2 := by
      rintro rfl i e hi he ht
      refine hI.shared.processed i e he (hO event (by simp [hc, records]) e ?_ ht)
      exact List.mem_of_getElem? (i := i) (by rw [List.getElem?_take_of_lt hi, he])
    obtain ⟨hS, hlog, hcalls, hsub, hat, -⟩ := project_spec hI.shared hcall hlast hp
    rw [hp] at h
    cases o <;> simp only [Option.some.injEq] at h <;> subst h
    · exact hI.set hS (hlog ▸ List.prefix_rfl) hsub hcalls (hat _ rfl)
    · exact hI.clear hS (hlog ▸ List.prefix_rfl) hsub hcalls
    · exact hI.clear hS (hlog ▸ List.prefix_rfl) hsub hcalls
  | getLastEvent =>
    simp only [next, Option.some.injEq] at h
    subst h
    exact hI.set hI.shared List.prefix_rfl (List.Subset.refl _) rfl hI.shared.checkpoint
  | getEventsByTypes lastEvent =>
    simp only [next] at h
    split at h <;> simp only [Option.some.injEq] at h <;> subst h
    · rename_i todo ht
      exact hI.set hI.shared List.prefix_rfl (List.Subset.refl _) rfl
        (callInv_getEventsByTypes hI.shared hcall ht)
    · exact hI.clear hI.shared List.prefix_rfl (List.Subset.refl _) rfl
  | restoring todo awaiting last length =>
    rcases todo with _ | ⟨event, todo⟩
    · simp [next] at h
    simp only [next] at h
    rcases hp : P.project s event (P.shouldRecordLastEvent event.1 none) awaiting with ⟨t, o⟩
    have hbatch := hcall
    obtain ⟨hlen, hmem, hord, hdone, hhead, hlast⟩ := hcall
    obtain ⟨hlt, hord'⟩ := List.pairwise_cons.1 hord
    have hbefore : P.CompletedBefore s event.2 := by
      -- of the events still to project the first is the earliest
      intro i e hi he ht
      rcases hdone i e (Nat.lt_trans hi (hmem event (by simp)).2) he ht with h | h
      · exact h
      · obtain ⟨e', he', rfl⟩ := List.mem_map.1 h
        rcases List.mem_cons.1 he' with rfl | he'
        · exact absurd hi (Nat.lt_irrefl _)
        · exact absurd hi (Nat.lt_asymm (hlt e' he'))
    obtain ⟨hS, hlog, hcalls, hsub, hat, hret⟩ :=
      project_spec hI.shared (hhead event rfl) (fun _ => hbefore) hp
    have hpre : s.log <+: t.log := hlog ▸ List.prefix_rfl
    rw [hp] at h
    cases o <;> simp only [Option.some.injEq] at h <;> subst h
    · obtain ⟨hlen', hmem', hord', hdone', -, hlast'⟩ :=
        hbatch.mono hpre hsub
      refine hI.set hS hpre hsub hcalls ⟨hlen', hmem', hord', hdone', fun e he => ?_, hlast'⟩
      simp only [List.head?_cons, Option.mem_def, Option.some.injEq] at he
      exact he ▸ hat _ rfl
    · have hev : event.2 ∈ t.completed := by
        rcases hret rfl with h | ⟨rfl, h⟩
        · exact h
        · exact absurd h (hU event.1 (by simp [hc, tries]))
      obtain ⟨hlen', hmem', hord', hdone', -, hlast'⟩ :=
        hbatch.mono hpre hsub
      refine hI.set hS hpre hsub hcalls ⟨hlen', fun e he => hmem' e (List.mem_cons_of_mem _ he),
        (List.pairwise_cons.1 hord').2, fun i e hi he ht => ?_, fun e he => ?_, fun e he => ?_⟩
      · rcases hdone' i e hi he ht with h | h
        · exact .inl h
        · rcases List.mem_cons.1 h with rfl | h
          · exact .inl hev
          · exact .inr h
      · exact ⟨(hmem' e (List.mem_cons_of_mem _ (List.mem_of_mem_head? he))).1, by simp⟩
      · simp only [Option.mem_def, Option.some.injEq] at he
        exact ⟨event.2, (hmem' event (by simp)).2, he ▸ (hmem' event (by simp)).1⟩
    · exact hI.clear hS hpre hsub hcalls

omit [DecidableEq K] in
/-- A restore whose stream has ended has handled all it read. -/
theorem CallInv.completedBefore {s : Sys I V M K} {awaiting : Projecting}
    {last : Option (Event I V)} {length : ℕ}
    (h : CallInv P s (.restoring [] awaiting last length)) : P.CompletedBefore s length := by
  intro i e hi he ht
  obtain ⟨-, -, -, hdone, -, -⟩ := h
  simpa using hdone i e hi he ht

omit [DecidableEq K] in
theorem shared_returns {s : Sys I V M K} {awaiting : Projecting} {last : Option (Event I V)}
    {length : ℕ} (hS : Shared P s) (h : CallInv P s (.restoring [] awaiting last length)) :
    Shared P (s.setLocker (last.elim s.locker s.locker.markAsLastEvent)) := by
  rcases last with _ | event
  · exact hS
  · refine hS.of_locker rfl (List.Subset.refl _) hS.rows (fun i e _ h => .inl h) fun e he => ?_
    simp only [Sys.setLocker, Option.elim_some, SqliteEventLocker.getLastEvent_markAsLastEvent,
      Option.some.injEq] at he
    obtain ⟨i, hi, hie⟩ := h.2.2.2.2.2 event rfl
    refine .inr ⟨i, he ▸ hie, fun j e' hj hje ht => h.completedBefore j e' (by omega) hje ht⟩

omit [DecidableEq K] in
theorem shared_append {s : Sys I V M K} {event : Event I V} (hS : Shared P s)
    (hid : P.getEventId event ∉ s.log.map P.getEventId) :
    Shared P { s with log := s.log ++ [event] } := by
  refine ⟨?_, fun k hk => ?_, fun i e he h => ?_, fun e he => ?_⟩
  · rw [List.map_append, List.nodup_append]
    refine ⟨hS.ids, by simp, fun k hk k' hk' => ?_⟩
    simp only [List.map_cons, List.map_nil, List.mem_singleton] at hk'
    exact fun heq => hid (hk' ▸ heq ▸ hk)
  · rw [List.map_append]
    exact List.mem_append_left _ (hS.rows k hk)
  · by_cases hlt : i < s.log.length
    · rw [List.getElem?_append_left hlt] at he
      exact hS.processed i e he h
    · -- the new event's lock has no row yet
      rw [List.getElem?_append_right (by omega)] at he
      have hee : e = event := by simpa using List.mem_of_getElem? he
      obtain ⟨r, hr, -⟩ : s.locker.Processed (P.getEventId e) := h
      exact absurd (hS.rows _ (by simp [Option.mem_def.1 hr])) (hee ▸ hid)
  · obtain ⟨i, hi, hb⟩ := hS.checkpoint e he
    obtain ⟨hlt, -⟩ := List.getElem?_eq_some_iff.1 hi
    exact ⟨i, getElem?_isPrefix (List.prefix_append ..) hi,
      hb.mono hlt (List.prefix_append ..) (List.Subset.refl _)⟩

/-- The steps that keep the checkpoint safe. -/
def Kept (P : Projection I V M K) (s : Sys I V M K) (a : Action I V M) : Prop :=
  OwnId P s a ∧ Unobstructed P s a ∧ InOrder P s a

theorem inv_step {s s' : Sys I V M K} {a : Action I V M} (hI : Inv P s) (hK : Kept P s a)
    (h : P.step s a = some s') : Inv P s' := by
  obtain ⟨hid, hU, hO⟩ := hK
  cases a with
  | tick ms =>
    simp only [step, Option.some.injEq] at h
    subst h
    obtain ⟨⟨h1, h2, h3, h4⟩, hcalls⟩ := hI
    exact ⟨⟨h1, h2, h3, h4⟩, fun c p call hc => (hcalls c p call hc).mono List.prefix_rfl
      (List.Subset.refl _)⟩
  | append event =>
    simp only [step, Option.some.injEq] at h
    subst h
    exact ⟨shared_append hI.shared hid, fun c p call hc => (hI.calls c p call hc).mono
      (List.prefix_append ..) (List.Subset.refl _)⟩
  | project c p i metadata =>
    simp only [step] at h
    split at h
    · rename_i event hc he
      split_ifs at h
      simp only [Option.some.injEq] at h
      subst h
      have hS : Shared P (s.setDelivered p (i + 1)) :=
        hI.shared.of_locker rfl (List.Subset.refl _) hI.shared.rows (fun _ _ _ h => .inl h)
          fun _ h => .inl h
      refine hI.set hS List.prefix_rfl (List.Subset.refl _) rfl ?_
      exact ⟨he, by simp⟩
    · simp at h
  | restore c p =>
    simp only [step] at h
    split_ifs at h
    simp only [Option.some.injEq] at h
    subst h
    exact hI.set hI.shared List.prefix_rfl (List.Subset.refl _) rfl trivial
  | next c =>
    simp only [step, Option.bind_eq_some_iff] at h
    obtain ⟨⟨p, call⟩, hc, h⟩ := h
    exact inv_next hI hU hO hc h
  | rejects c =>
    simp only [step, Option.bind_eq_some_iff] at h
    obtain ⟨⟨p, call⟩, hc, h⟩ := h
    simp only [] at h
    split_ifs at h
    simp only [Option.some.injEq] at h
    subst h
    exact hI.clear hI.shared List.prefix_rfl (List.Subset.refl _) rfl
  | returns c =>
    simp only [step] at h
    split at h
    · rename_i p awaiting last length hc
      simp only [Option.some.injEq] at h
      subst h
      exact hI.clear (shared_returns hI.shared (hI.calls c p _ hc)) List.prefix_rfl
        (List.Subset.refl _) rfl
    · simp at h
  | crash p =>
    simp only [step, Option.some.injEq] at h
    subst h
    obtain ⟨⟨h1, h2, h3, h4⟩, hcalls⟩ := hI
    refine ⟨⟨h1, h2, h3, h4⟩, fun c p' call hc => ?_⟩
    simp only [Option.filter_eq_some_iff] at hc
    exact (hcalls c p' call hc.1).mono List.prefix_rfl (List.Subset.refl _)

theorem inv {s : Sys I V M K} (h : P.machine.ReachIf (Kept P) s) : Inv P s :=
  h.invariant (P := Inv P) (fun _ => inv_init) fun _ _ _ hI hK h => inv_step hI hK h

end Steps

end Projection

end NodeCqrs
