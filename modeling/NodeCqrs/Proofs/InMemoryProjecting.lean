import Mathlib.Data.List.Count
import NodeCqrs.InMemory.Projecting
import NodeCqrs.Proofs.EventDispatcher

/-!
# How often a projection handles an event while it starts

An event is published once, after it was committed, so one the projection does not hear was stored
before it subscribed, and `restore()` finds it: nothing is lost. What is both found and heard is
handled twice (`handled_count`). So each event is handled once if what is heard was committed after
`restore()` had read the storage (`handled_once`). A snapshot event is never heard.
-/

namespace NodeCqrs

namespace InMemoryProjecting

variable {I V : Type}

theorem count_zipIdx_filter (P : Event I V → Bool) (place : ℕ) :
    ∀ (events : List (Event I V)) (offset : ℕ),
      (((events.zipIdx offset).filter fun p => P p.1).map Prod.snd).count place
        = if offset ≤ place ∧ events[place - offset]?.any P then 1 else 0
  | [], offset => by simp
  | event :: events, offset => by
    have ih := count_zipIdx_filter P place events (offset + 1)
    rw [List.zipIdx_cons, List.filter_cons]
    rcases Nat.lt_trichotomy place offset with hlt | rfl | hgt
    · have hne : offset ≠ place := by omega
      simp only [show ¬ offset + 1 ≤ place by omega, show ¬ offset ≤ place by omega, false_and,
        if_false] at ih ⊢
      split <;> simp [ih, hne]
    · rw [if_neg fun h => absurd h.1 (by omega)] at ih
      cases hP : P event <;> simp [ih, hP]
    · have hne : offset ≠ place := by omega
      rw [show place - offset = (place - (offset + 1)) + 1 by omega, List.getElem?_cons_succ]
      simp only [show offset + 1 ≤ place from hgt, Nat.le_of_lt hgt, true_and] at ih ⊢
      split <;> simp [ih, hne]

theorem count_places (events : List (Event I V)) (offset place : ℕ) :
    (places events offset).count place
      = if offset ≤ place ∧ place < offset + events.length then 1 else 0 :=
  List.count_range_1'

/-- The places of the batches that are committed and not published. -/
def Dispatch.pending (d : Dispatch I V) : List ℕ :=
  match d.commit with
  | .committed offset => places d.events offset
  | _ => []

def Sys.pending (s : Sys I V) : List ℕ := s.dispatches.flatMap Dispatch.pending

/-- The places `_restore` still has to project. -/
def Sys.todo (s : Sys I V) : List ℕ :=
  match s.restore with
  | .restoring todo => todo
  | _ => []

/-- There is such an event at the place. -/
def Sys.isAt (s : Sys I V) (P : Event I V → Bool) (place : ℕ) : Bool :=
  s.storage.events[place]?.any P

/-- `restore()` found an event at the place. -/
def Sys.isFound (s : Sys I V) (place : ℕ) : Bool := s.found.any (place < ·)

/-- `restore()` follows `subscribe()`, and has read the storage when it projects. -/
def Phases (s : Sys I V) : Prop :=
  match s.restore with
  | .idle => s.found = none
  | .getEventsByTypes => s.subscribed ∧ s.found = none
  | .restoring _ | .restored => s.subscribed ∧ s.found ≠ none

variable [Truthy V] (handles : List String)

/-- How often the event at a place is projected: when it is found, and when it is heard. -/
def Sys.due (s : Sys I V) (place : ℕ) : ℕ :=
  (if s.isFound place && s.isAt (·.type ∈ handles) place then 1 else 0)
    + if s.isAt (hears handles) place then s.heard.count place else 0

/-- Each stored event is to be published, or was, once; the handler was or will be called for what
was found and for what was heard. -/
structure Inv (s : Sys I V) : Prop where
  stored : ∀ d ∈ s.dispatches, ∀ offset, d.commit = .committed offset → ∀ j event,
    d.events[j]? = some event → s.storage.events[offset + j]? = some event
  published : ∀ place, s.pending.count place + s.unheard.count place + s.heard.count place
    = if place < s.storage.events.length then 1 else 0
  handled : ∀ place, s.handled.count place + s.waiting.count place + s.todo.count place
    = s.due handles place
  found_le : ∀ n, s.found = some n → n ≤ s.storage.events.length
  unheard : ∀ place ∈ s.unheard, s.found ≠ none → s.isFound place
  phases : Phases s

variable {handles} {s s' : Sys I V}

theorem foldl_project (events : List (Event I V × ℕ)) : ∀ s : Sys I V,
    events.foldl (fun s p => if hears handles p.1 then project s p.2 else s) s
      = let l := (events.filter fun p => hears handles p.1).map Prod.snd
        if s.locked then { s with waiting := s.waiting ++ l }
        else { s with handled := s.handled ++ l } := by
  induction events with
  | nil => intro s; simp
  | cons p events ih =>
    intro s
    rw [List.foldl_cons, ih]
    cases hp : hears handles p.1 <;> cases hl : s.locked <;> simp [project, hp, hl]

omit [Truthy V] in
theorem count_pending_set (d' : Dispatch I V) (place : ℕ) :
    ∀ {dispatches : List (Dispatch I V)} {n : ℕ} {d : Dispatch I V}, dispatches[n]? = some d →
      ((dispatches.set n d').flatMap Dispatch.pending).count place + d.pending.count place
        = (dispatches.flatMap Dispatch.pending).count place + d'.pending.count place
  | d :: dispatches, 0, _, h => by
    obtain rfl : d = _ := Option.some.inj h
    simp only [List.set_cons_zero, List.flatMap_cons, List.count_append]
    omega
  | d :: dispatches, n + 1, _, h => by
    have h' : dispatches[n]? = some _ := h
    have ih := count_pending_set d' place h'
    simp only [List.set_cons_succ, List.flatMap_cons, List.count_append]
    omega

variable (handles) in
/-- Of a batch that is published, the projection hears what is stored at its places. -/
theorem count_heard {events : List (Event I V)} {offset : ℕ}
    (hstored : ∀ j event, events[j]? = some event → s.storage.events[offset + j]? = some event)
    (place : ℕ) :
    (((events.zipIdx offset).filter fun p => hears handles p.1).map Prod.snd).count place
      = if s.isAt (hears handles) place then (places events offset).count place else 0 := by
  rw [count_zipIdx_filter (hears handles), count_places]
  by_cases hin : offset ≤ place ∧ place < offset + events.length
  · have hlt : place - offset < events.length := by omega
    have hat := hstored (place - offset) _ (List.getElem?_eq_getElem hlt)
    rw [show offset + (place - offset) = place by omega] at hat
    rw [if_pos hin, Sys.isAt, hat, List.getElem?_eq_getElem hlt]
    simp [hin.1]
  · rw [if_neg hin]
    have hnone : ¬ (offset ≤ place ∧ events[place - offset]?.any (hears handles)) := by
      rintro ⟨hle, hany⟩
      rw [List.getElem?_eq_none (by omega)] at hany
      cases hany
    rw [if_neg hnone]
    split <;> rfl

namespace Inv

theorem heard_count (h : Inv handles s) (place : ℕ) :
    s.heard.count place ≤ if place < s.storage.events.length then 1 else 0 := by
  have := h.published place
  omega

theorem lt_of_isFound (h : Inv handles s) {place : ℕ} (hf : s.isFound place) :
    place < s.storage.events.length := by
  obtain ⟨n, hn, hlt⟩ := Option.any_eq_true .. |>.1 hf
  have := h.found_le n hn
  have : place < n := by simpa using hlt
  omega

/-- A batch leaves the pipeline, published or rejected. -/
theorem leave (h : Inv handles s) {d : Dispatch I V} {dispatches : List (Dispatch I V)}
    (hd : s.dispatches = d :: dispatches) (hst : s'.storage = s.storage)
    (hdis : s'.dispatches = dispatches) (hf : s'.found = s.found)
    (hpub : ∀ place, s'.unheard.count place + s'.heard.count place
      = s.unheard.count place + s.heard.count place + d.pending.count place)
    (hhandled : ∀ place, s'.handled.count place + s'.waiting.count place + s'.todo.count place
      = s'.due handles place)
    (hun : ∀ place ∈ s'.unheard, s'.found ≠ none → s'.isFound place) (hph : Phases s') :
    Inv handles s' := by
  refine ⟨fun d' hd' => ?_, fun place => ?_, hhandled, fun n hn => ?_, hun, hph⟩
  · rw [hst]
    exact h.stored d' (hd ▸ List.mem_cons_of_mem _ (hdis ▸ hd'))
  · have hold := h.published place
    have hnew := hpub place
    simp only [Sys.pending, hd, List.flatMap_cons, List.count_append, hst, hdis] at hold ⊢
    omega
  · rw [hst]
    exact h.found_le n (hf ▸ hn)

/-- What is committed next is not due yet. -/
theorem due_append (h : Inv handles s) {events : List (Event I V)}
    (hevents : s'.storage.events = s.storage.events ++ events) (hfound : s'.found = s.found)
    (hheard : s'.heard = s.heard) (place : ℕ) : s'.due handles place = s.due handles place := by
  have hisFound : s'.isFound place = s.isFound place := by rw [Sys.isFound, hfound, Sys.isFound]
  by_cases hlt : place < s.storage.events.length
  · have hat : ∀ P : Event I V → Bool, s'.isAt P place = s.isAt P place := by
      intro P
      rw [Sys.isAt, hevents, List.getElem?_append_left hlt, Sys.isAt]
    rw [Sys.due, hat, hat, hisFound, hheard, Sys.due]
  · have hzero : s.heard.count place = 0 := by
      have := h.heard_count place
      rw [if_neg hlt] at this
      omega
    have hno : s.isFound place = false := by
      by_contra hf
      exact hlt (h.lt_of_isFound (by simpa using hf))
    simp [Sys.due, hisFound, hno, hheard, hzero]

end Inv

variable [DecidableEq I]

theorem step_commit (h : Inv handles s) {n : ℕ} (hst : step handles s (.commit n) = some s') :
    Inv handles s' := by
  unfold step at hst
  simp only [] at hst
  split at hst
  · rename_i events ignoreConcurrencyError hn
    split at hst
    · rename_i storage hc
      obtain rfl := Option.some.inj hst
      have hevents : storage.events = s.storage.events ++ events :=
        InMemoryEventStorage.commitEvents_events hc
      refine ⟨?_, ?_, ?_, ?_, h.unheard, h.phases⟩
      · intro d hd offset hoff j event hj
        simp only [hevents]
        rcases List.mem_or_eq_of_mem_set hd with hd | rfl
        · have hget := h.stored d hd offset hoff j event hj
          rw [List.getElem?_append_left (List.getElem?_eq_some_iff.1 hget).1, hget]
        · obtain rfl : s.storage.events.length = offset := by simpa using hoff
          rw [List.getElem?_append_right (Nat.le_add_right _ _), Nat.add_sub_cancel_left]
          exact hj
      · intro place
        have hset := count_pending_set (⟨events, ignoreConcurrencyError,
          .committed s.storage.events.length⟩ : Dispatch I V) place hn
        have hp := h.published place
        simp only [Dispatch.pending, List.count_nil, count_places] at hset
        simp only [Sys.pending, hevents, List.length_append] at hp hset ⊢
        split_ifs at hp hset ⊢ <;> omega
      · intro place
        refine (h.handled place).trans (Eq.symm ?_)
        apply h.due_append
        · exact hevents
        · rfl
        · rfl
      · intro n hn'
        have := h.found_le n hn'
        simp only [hevents, List.length_append]
        omega
    · obtain rfl := Option.some.inj hst
      refine ⟨?_, fun place => ?_, h.handled, h.found_le, h.unheard, h.phases⟩
      · intro d hd offset hoff
        rcases List.mem_or_eq_of_mem_set hd with hd | rfl
        · exact h.stored d hd offset hoff
        · cases hoff
      · have hset := count_pending_set (⟨events, ignoreConcurrencyError, .failed⟩ : Dispatch I V)
          place hn
        have hp := h.published place
        simp only [Dispatch.pending, List.count_nil, Sys.pending] at hp hset ⊢
        omega
  · cases hst

theorem step_publish (h : Inv handles s) (hst : step handles s .publish = some s') :
    Inv handles s' := by
  unfold step at hst
  simp only [] at hst
  split at hst
  · rename_i events _ offset dispatches hd
    obtain rfl := Option.some.inj hst
    have hstored := h.stored _ (hd ▸ List.mem_cons_self ..) offset rfl
    have hheard := count_heard handles hstored
    unfold publish
    split
    · rename_i hsub
      rw [foldl_project]
      -- with the view locked or not, what is heard now is what is due now
      have hleave : ∀ t : Sys I V, t.storage = s.storage → t.dispatches = dispatches →
          t.found = s.found → t.unheard = s.unheard → t.heard = s.heard ++ places events offset →
          Phases t → (∀ place, t.handled.count place + t.waiting.count place + t.todo.count place
            = s.handled.count place + s.waiting.count place + s.todo.count place
              + (((events.zipIdx offset).filter
                fun p => hears handles p.1).map Prod.snd).count place) → Inv handles t := by
        intro t ht hdis hf hu hh hph hcount
        have hisFound : ∀ place, t.isFound place = s.isFound place := fun place => by
          rw [Sys.isFound, hf, Sys.isFound]
        refine h.leave hd ht hdis hf (fun place => ?_) (fun place => ?_) (fun place => ?_) hph
        · simp only [hu, hh, List.count_append, Dispatch.pending]
          omega
        · have hat : ∀ P : Event I V → Bool, t.isAt P place = s.isAt P place := fun P => by
            rw [Sys.isAt, ht, Sys.isAt]
          rw [hcount, h.handled place, Sys.due, Sys.due, hat, hat, hisFound, hh, hheard,
            List.count_append]
          cases s.isAt (hears handles) place <;> simp [Nat.add_assoc]
        · rw [hu, hf, hisFound]
          exact h.unheard place
      simp only []
      split
      · refine hleave _ rfl rfl rfl rfl rfl h.phases fun place => ?_
        simp only [Sys.todo, List.count_append]
        omega
      · refine hleave _ rfl rfl rfl rfl rfl h.phases fun place => ?_
        simp only [Sys.todo, List.count_append]
        omega
    · rename_i hsub
      have hnone : s.found = none := by
        have hph := h.phases
        unfold Phases at hph
        split at hph
        · exact hph
        · exact hph.2
        · exact absurd hph.1 hsub
        · exact absurd hph.1 hsub
      refine h.leave hd rfl rfl rfl (fun place => ?_) h.handled (fun place _ hne => absurd hnone hne)
        h.phases
      simp only [List.count_append, Dispatch.pending]
      omega
  · rename_i dispatches hd
    obtain rfl := Option.some.inj hst
    exact h.leave hd rfl rfl rfl (fun place => rfl) h.handled h.unheard h.phases
  · cases hst

theorem step_read (h : Inv handles s) (hst : step handles s .read = some s') : Inv handles s' := by
  unfold step at hst
  simp only [] at hst
  split at hst
  · rename_i hr
    obtain rfl := Option.some.inj hst
    have hph := h.phases
    rw [Phases, hr] at hph
    refine ⟨h.stored, h.published, fun place => ?_, fun n hn => ?_, fun place hmem _ => ?_, ?_⟩
    · have hh := h.handled place
      have hcount : (getEventsByTypes handles s.storage.events).count place
          = if s.isAt (·.type ∈ handles) place then 1 else 0 := by
        rw [getEventsByTypes, count_zipIdx_filter (·.type ∈ handles), Sys.isAt]
        simp only [Nat.zero_le, true_and, Nat.sub_zero]
      have hno : s.isFound place = false := by rw [Sys.isFound, hph.2]; rfl
      rw [Sys.due, hno] at hh
      show s.handled.count place + s.waiting.count place
          + (getEventsByTypes handles s.storage.events).count place
        = (if decide (place < s.storage.events.length) && s.isAt (·.type ∈ handles) place then 1 else 0)
          + if s.isAt (hears handles) place then s.heard.count place else 0
      simp only [Sys.todo, hr, List.count_nil, Nat.add_zero, Bool.false_and, Bool.false_eq_true,
        if_false, Nat.zero_add] at hh
      rw [hcount, hh]
      cases hat : s.isAt (·.type ∈ handles) place with
      | false => simp
      | true =>
        have hlt : place < s.storage.events.length := by
          by_contra hge
          rw [Sys.isAt, List.getElem?_eq_none (by omega)] at hat
          cases hat
        simp [hlt, Nat.add_comm]
    · obtain rfl : s.storage.events.length = n := by simpa using hn
      exact Nat.le_refl _
    · have hp := h.published place
      have hpos : 0 < s.unheard.count place := List.count_pos_iff.2 hmem
      have hlt : place < s.storage.events.length := by
        by_contra hge
        rw [if_neg hge] at hp
        omega
      simpa [Sys.isFound] using hlt
    · exact ⟨hph.1, by simp⟩
  · cases hst

theorem step_inv (h : Inv handles s) {a : Action I V} (hst : step handles s a = some s') :
    Inv handles s' := by
  cases a with
  | dispatch events ignoreConcurrencyError =>
    unfold step at hst
    simp only [] at hst
    split at hst
    · cases hst
    · obtain rfl := Option.some.inj hst
      refine ⟨?_, ?_, h.handled, h.found_le, h.unheard, h.phases⟩
      · intro d hd offset hoff
        rcases List.mem_append.1 hd with hd | hd
        · exact h.stored d hd offset hoff
        · obtain rfl := List.mem_singleton.1 hd
          cases hoff
      · intro place
        have hp := h.published place
        simpa [Sys.pending, Dispatch.pending] using hp
  | commit n => exact step_commit h hst
  | publish => exact step_publish h hst
  | subscribe =>
    unfold step at hst
    simp only [] at hst
    split at hst
    · cases hst
    · rename_i hsub
      obtain rfl := Option.some.inj hst
      refine ⟨h.stored, h.published, h.handled, h.found_le, h.unheard, ?_⟩
      have hph := h.phases
      unfold Phases at hph ⊢
      split at hph
      · rename_i hr
        rw [hr]
        exact hph
      · exact absurd hph.1 hsub
      · exact absurd hph.1 hsub
      · exact absurd hph.1 hsub
  | restore =>
    unfold step at hst
    simp only [] at hst
    split at hst
    · rename_i hr
      have hph := h.phases
      rw [Phases, hr] at hph
      split at hst
      · rename_i hsub
        obtain rfl := Option.some.inj hst
        refine ⟨h.stored, h.published, fun place => ?_, h.found_le, h.unheard, hsub, hph⟩
        have hh := h.handled place
        simp only [Sys.todo, hr] at hh ⊢
        exact hh
      · cases hst
    · cases hst
  | read => exact step_read h hst
  | next =>
    unfold step at hst
    simp only [] at hst
    split at hst
    · rename_i place todo hr
      obtain rfl := Option.some.inj hst
      have hph := h.phases
      rw [Phases, hr] at hph
      refine ⟨h.stored, h.published, fun place' => ?_, h.found_le, h.unheard, hph⟩
      have hh := h.handled place'
      simp only [Sys.todo, hr, List.count_cons] at hh
      refine Eq.trans ?_ hh
      simp only [Sys.todo, List.count_append, List.count_singleton]
      omega
    · rename_i hr
      obtain rfl := Option.some.inj hst
      have hph := h.phases
      rw [Phases, hr] at hph
      refine ⟨h.stored, h.published, fun place => ?_, h.found_le, h.unheard, hph⟩
      have hh := h.handled place
      simp only [Sys.todo, hr] at hh ⊢
      exact hh
    · cases hst
  | ready =>
    unfold step at hst
    simp only [] at hst
    split at hst
    · rename_i place waiting hw
      split at hst
      · cases hst
      · obtain rfl := Option.some.inj hst
        refine ⟨h.stored, h.published, fun place' => ?_, h.found_le, h.unheard, h.phases⟩
        have hh := h.handled place'
        simp only [hw, List.count_cons] at hh
        refine Eq.trans ?_ hh
        simp only [Sys.todo, List.count_append, List.count_singleton]
        omega
    · cases hst

theorem inv_of_reach {C : Sys I V → Action I V → Prop} (h : (machine handles).ReachIf C s) :
    Inv handles s := by
  refine h.invariant (fun s h0 => ?_) fun s a s' hi _ hst =>
    step_inv hi (show step handles s a = some s' from hst)
  obtain rfl : s = {} := h0
  refine ⟨fun d hd => (by cases hd), fun place => rfl, fun place => ?_, fun n hn => (by cases hn),
    fun place hmem => (by cases hmem), rfl⟩
  simp [Sys.todo, Sys.due, Sys.isFound]

/-- When all has settled, an event has been handled once for its being found by `restore()`, and
once for its being published where the projection heard it. -/
theorem handled_count {C : Sys I V → Action I V → Prop} (h : (machine handles).ReachIf C s)
    (hs : s.Settled) (place : ℕ) :
    s.handled.count place = s.due handles place
      ∧ s.unheard.count place + s.heard.count place
        = if place < s.storage.events.length then 1 else 0 := by
  have hi := inv_of_reach h
  obtain ⟨hd, hr, hw⟩ := hs
  have hh := hi.handled place
  have hp := hi.published place
  have htodo : s.todo = [] := by
    unfold Sys.todo
    split
    · rename_i hr'
      rw [hr'] at hr
      cases hr
    · rfl
  simp only [htodo, hw, List.count_nil, Nat.add_zero] at hh
  simp only [Sys.pending, hd, List.flatMap_nil, List.count_nil, Nat.zero_add] at hp
  exact ⟨hh, hp⟩

variable (handles) in
/-- A batch with an event the projection hears, once it is subscribed, is published only if it was
committed after `restore()` had read the storage; and from then on no snapshot event of a handled
type is committed. -/
def Apart (s : Sys I V) : Action I V → Prop
  | .publish => ∀ d dispatches offset, s.dispatches = d :: dispatches →
      d.commit = .committed offset → s.subscribed → (∃ event ∈ d.events, hears handles event) →
        ∃ n, s.found = some n ∧ n ≤ offset
  | .commit n => s.found ≠ none → ∀ d storage, s.dispatches[n]? = some d →
      s.storage.commitEvents d.events d.ignoreConcurrencyError = .ok storage →
        ∀ event ∈ d.events, event.type ∈ handles → isSnapshotEvent event = false
  | _ => True

/-- What is heard was not found, and no snapshot event of a handled type is missed. -/
structure Separate (handles : List String) (s : Sys I V) : Prop where
  heard : ∀ place ∈ s.heard, s.isAt (hears handles) place → s.found ≠ none ∧ s.isFound place = false
  snapshots : ∀ place event, s.storage.events[place]? = some event → event.type ∈ handles →
    isSnapshotEvent event → s.found ≠ none → s.isFound place

omit [DecidableEq I] in
theorem Separate.congr (h : Separate handles s) (hst : s'.storage = s.storage)
    (hf : s'.found = s.found) (hh : s'.heard = s.heard) : Separate handles s' := by
  have hat : ∀ (P : Event I V → Bool) place, s'.isAt P place = s.isAt P place := fun P place => by
    rw [Sys.isAt, hst, Sys.isAt]
  have hisFound : ∀ place, s'.isFound place = s.isFound place := fun place => by
    rw [Sys.isFound, hf, Sys.isFound]
  refine ⟨fun place hmem hp => ?_, fun place event he => ?_⟩
  · rw [hf, hisFound]
    exact h.heard place (hh ▸ hmem) (hat _ place ▸ hp)
  · rw [hf, hisFound]
    exact h.snapshots place event (hst ▸ he)

theorem Separate.commit (h : Separate handles s) (hi : Inv handles s) {n : ℕ}
    (ha : Apart handles s (.commit n)) (hst : step handles s (.commit n) = some s') :
    Separate handles s' := by
  unfold step at hst
  simp only [] at hst
  split at hst
  · rename_i events ignoreConcurrencyError hn
    split at hst
    · rename_i storage hc
      obtain rfl := Option.some.inj hst
      have hevents : storage.events = s.storage.events ++ events :=
        InMemoryEventStorage.commitEvents_events hc
      refine ⟨fun place hmem hp => ?_, fun place event he htype hsnap hf => ?_⟩
      · have hlt : place < s.storage.events.length := by
          have hcount := hi.heard_count place
          have hpos : 0 < s.heard.count place := List.count_pos_iff.2 hmem
          by_contra hge
          rw [if_neg hge] at hcount
          omega
        refine h.heard place hmem ?_
        rw [Sys.isAt, ← List.getElem?_append_left hlt, ← hevents]
        exact hp
      · simp only [hevents] at he
        by_cases hlt : place < s.storage.events.length
        · rw [List.getElem?_append_left hlt] at he
          exact h.snapshots place event he htype hsnap hf
        · rw [List.getElem?_append_right (by omega)] at he
          have hno := ha hf _ storage hn hc event (List.mem_of_getElem? he) htype
          rw [hno] at hsnap
          cases hsnap
    · obtain rfl := Option.some.inj hst
      exact h.congr rfl rfl rfl
  · cases hst

theorem Separate.publish (h : Separate handles s) (hi : Inv handles s)
    (ha : Apart handles s .publish) (hst : step handles s .publish = some s') :
    Separate handles s' := by
  unfold step at hst
  simp only [] at hst
  split at hst
  · rename_i events _ offset dispatches hd
    obtain rfl := Option.some.inj hst
    have hstored := hi.stored _ (hd ▸ List.mem_cons_self ..) offset rfl
    unfold InMemoryProjecting.publish
    split
    · rename_i hsub
      have hnew : Separate handles { s with heard := s.heard ++ places events offset } := by
        refine ⟨fun place hmem hp => ?_, h.snapshots⟩
        rcases List.mem_append.1 hmem with hold | hin
        · exact h.heard place hold hp
        · obtain ⟨j, hj, rfl⟩ : ∃ j, j < events.length ∧ place = offset + j := by
            simpa [places, List.mem_range'] using hin
          have hget := hstored j _ (List.getElem?_eq_getElem hj)
          have hhears : hears handles events[j] := by
            simpa [Sys.isAt, hget] using hp
          obtain ⟨n, hn, hle⟩ := ha _ dispatches offset hd rfl hsub
            ⟨events[j], List.getElem_mem hj, hhears⟩
          refine ⟨by simp [hn], ?_⟩
          simp only [Sys.isFound, hn, Option.any_some, decide_eq_false_iff_not]
          omega
      rw [foldl_project]
      simp only []
      split
      · exact hnew.congr rfl rfl rfl
      · exact hnew.congr rfl rfl rfl
    · exact h.congr rfl rfl rfl
  · obtain rfl := Option.some.inj hst
    exact h.congr rfl rfl rfl
  · cases hst

theorem Separate.read (h : Separate handles s) (hi : Inv handles s)
    (hst : step handles s .read = some s') : Separate handles s' := by
  unfold step at hst
  simp only [] at hst
  split at hst
  · rename_i hr
    obtain rfl := Option.some.inj hst
    have hph := hi.phases
    rw [Phases, hr] at hph
    refine ⟨fun place hmem hp => absurd hph.2 (h.heard place hmem hp).1, fun place event he _ _ _ => ?_⟩
    simpa [Sys.isFound] using (List.getElem?_eq_some_iff.1 he).1
  · cases hst

theorem Separate.step (h : Separate handles s) (hi : Inv handles s) {a : Action I V}
    (ha : Apart handles s a) (hst : InMemoryProjecting.step handles s a = some s') :
    Separate handles s' := by
  cases a with
  | commit n => exact h.commit hi ha hst
  | publish => exact h.publish hi ha hst
  | read => exact h.read hi hst
  | dispatch events ignoreConcurrencyError =>
    unfold InMemoryProjecting.step at hst
    simp only [] at hst
    split at hst
    · cases hst
    · obtain rfl := Option.some.inj hst
      exact h.congr rfl rfl rfl
  | subscribe =>
    unfold InMemoryProjecting.step at hst
    simp only [] at hst
    split at hst
    · cases hst
    · obtain rfl := Option.some.inj hst
      exact h.congr rfl rfl rfl
  | restore =>
    unfold InMemoryProjecting.step at hst
    simp only [] at hst
    split at hst
    · split at hst
      · obtain rfl := Option.some.inj hst
        exact h.congr rfl rfl rfl
      · cases hst
    · cases hst
  | next =>
    unfold InMemoryProjecting.step at hst
    simp only [] at hst
    split at hst
    · obtain rfl := Option.some.inj hst
      exact h.congr rfl rfl rfl
    · obtain rfl := Option.some.inj hst
      exact h.congr rfl rfl rfl
    · cases hst
  | ready =>
    unfold InMemoryProjecting.step at hst
    simp only [] at hst
    split at hst
    · split at hst
      · cases hst
      · obtain rfl := Option.some.inj hst
        exact h.congr rfl rfl rfl
    · cases hst

theorem separate_of_reach (h : (machine handles).ReachIf (Apart handles) s) :
    Separate handles s := by
  have hboth : Inv handles s ∧ Separate handles s := by
    refine h.invariant_of_reach (P := fun s => Inv handles s ∧ Separate handles s)
      (fun s h0 => ?_) fun s a s' hr hP ha hst => ?_
    · have hi := inv_of_reach (.init h0 : (machine handles).ReachIf (Apart handles) s)
      obtain rfl : s = {} := h0
      exact ⟨hi, fun place hmem => (by cases hmem), fun place event he => (by cases he)⟩
    · have hst' : InMemoryProjecting.step handles s a = some s' := hst
      exact ⟨step_inv hP.1 hst', hP.2.step hP.1 ha hst'⟩
  exact hboth.2

/-- Where what is heard is committed after `restore()` has read the storage, and snapshot events of
handled types before, each event of a handled type has been handled exactly once when all has
settled. -/
theorem handled_once (h : (machine handles).ReachIf (Apart handles) s) (hs : s.Settled) :
    HandledOnce handles s := by
  intro place event he htype
  have hi := inv_of_reach h
  have hsep := separate_of_reach h
  obtain ⟨hcount, hpub⟩ := handled_count h hs place
  have hlt := (List.getElem?_eq_some_iff.1 he).1
  rw [if_pos hlt] at hpub
  have hfound : s.found ≠ none := by
    have hph := hi.phases
    obtain ⟨-, hr, -⟩ := hs
    unfold Phases at hph
    split at hph
    · rename_i hr'
      rw [hr'] at hr
      cases hr
    · rename_i hr'
      rw [hr'] at hr
      cases hr
    · exact hph.2
    · exact hph.2
  have htypeAt : s.isAt (·.type ∈ handles) place := by simp [Sys.isAt, he, htype]
  rw [hcount, Sys.due, htypeAt, Bool.and_true]
  by_cases hsnap : isSnapshotEvent event
  · have hno : s.isAt (hears handles) place = false := by simp [Sys.isAt, he, hears, hsnap]
    rw [hsep.snapshots place event he htype hsnap hfound, hno]
    rfl
  · have hyes : s.isAt (hears handles) place := by simp [Sys.isAt, he, hears, hsnap, htype]
    rw [hyes]
    rcases Nat.eq_zero_or_pos (s.heard.count place) with hz | hpos
    · have hmem : place ∈ s.unheard := List.count_pos_iff.1 (by omega)
      rw [hi.unheard place hmem hfound, hz]
      rfl
    · have hmem : place ∈ s.heard := List.count_pos_iff.1 hpos
      rw [(hsep.heard place hmem hyes).2]
      simp only [Bool.false_eq_true, if_false, if_true]
      omega

/-- An event that is published before `subscribe()`, and one that is committed and published while
the other is restored. -/
theorem handled_once_each : ∃ s : Sys ℕ ℕ, (machine ["created"]).ReachIf (Apart ["created"]) s
    ∧ s.Settled ∧ s.storage.events.length = 2 ∧ s.handled = [0, 1] ∧ HandledOnce ["created"] s := by
  let event : Event ℕ ℕ := { type := "created", payload := 1 }
  have h0 : (machine (I := ℕ) (V := ℕ) ["created"]).Init {} := rfl
  have h1 : (machine ["created"]).ReachIf (Apart ["created"])
      { storage := { events := [event] }, dispatches := [⟨[event], false, .committed 0⟩] } :=
    ((Machine.ReachIf.init h0).step (Action.dispatch [event] false) trivial rfl).step
      (Action.commit 0) (fun hf => absurd rfl hf) rfl
  have h2 : (machine ["created"]).ReachIf (Apart ["created"])
      { storage := { events := [event] }, unheard := [0], subscribed := true, locked := true,
        restore := .restoring [0], found := some 1 } :=
    (((h1.step Action.publish (fun _ _ _ _ _ hsub => by cases hsub) rfl).step
      Action.subscribe trivial rfl).step Action.restore trivial rfl).step Action.read trivial rfl
  have hcommit : Apart ["created"]
      { storage := { events := [event] }, unheard := [0], subscribed := true, locked := true,
        restore := .restoring [0], found := some 1, dispatches := [⟨[event], false, .awaited⟩] }
      (Action.commit 0) := by
    intro _ d _ hd _ e he _
    obtain rfl : _ = d := Option.some.inj hd
    obtain rfl := List.mem_singleton.1 he
    rfl
  have h3 : (machine ["created"]).ReachIf (Apart ["created"])
      { storage := { events := [event, event] }, unheard := [0], subscribed := true, locked := true,
        restore := .restoring [0], found := some 1,
        dispatches := [⟨[event], false, .committed 1⟩] } :=
    (h2.step (Action.dispatch [event] false) trivial rfl).step (Action.commit 0) hcommit rfl
  have h4 : (machine ["created"]).ReachIf (Apart ["created"])
      { storage := { events := [event, event] }, unheard := [0], subscribed := true, locked := true,
        restore := .restoring [0], found := some 1, heard := [1], waiting := [1] } := by
    refine h3.step Action.publish (fun d dispatches offset hd hc _ _ => ?_) rfl
    obtain ⟨rfl, -⟩ := List.cons.inj hd
    obtain rfl : 1 = offset := by simpa using hc
    exact ⟨1, rfl, Nat.le_refl 1⟩
  have h5 : (machine ["created"]).ReachIf (Apart ["created"])
      { storage := { events := [event, event] }, unheard := [0], subscribed := true,
        restore := .restored, found := some 1, heard := [1], handled := [0, 1] } :=
    ((h4.step Action.next trivial rfl).step Action.next trivial rfl).step Action.ready trivial rfl
  exact ⟨_, h5, ⟨rfl, rfl, rfl⟩, rfl, rfl, handled_once h5 ⟨rfl, rfl, rfl⟩⟩

/-- The projection is subscribed and restored between an event's commit and its publication. -/
theorem handled_once_fails : ∃ s : Sys ℕ ℕ, (machine ["created"]).Reach s ∧ s.Settled
    ∧ s.storage.events = [{ type := "created", payload := 1 }] ∧ s.handled = [0, 0]
    ∧ ¬ HandledOnce ["created"] s := by
  let event : Event ℕ ℕ := { type := "created", payload := 1 }
  have h0 : (machine (I := ℕ) (V := ℕ) ["created"]).Init {} := rfl
  refine ⟨_, Machine.reach_of_run (l := [.dispatch [event] false, .commit 0, .subscribe, .restore,
    .publish, .read, .next, .next, .ready]) h0 rfl, ⟨rfl, rfl, rfl⟩, rfl, rfl, fun honce => ?_⟩
  have htwo := honce 0 event rfl (List.mem_singleton.2 rfl)
  cases htwo

end InMemoryProjecting

end NodeCqrs
