import Mathlib.Tactic.Common
import NodeCqrs.Mongo.Projecting
import NodeCqrs.Proofs.EventLockers

/-!
# An event is marked once

A document that is marked is found by no later operation, so an event is marked once (`Marked`).
As long as handlers that complete do so within the TTL, whoever locked an event still has its lock
until the TTL is over (`Held`), and so does not start a handler of an event that is marked unless
the answer that it has the lock comes later than that (`at_most_once`).
-/

namespace NodeCqrs

namespace MongoEventLocker

/-- What an operation of `tryMarkAsProjecting` that takes the lock does: nobody had it, or the lock
had run out. -/
structure Takes (eventLockTtl : ℕ) (now : ℤ) (doc doc' : Option EventLockDocument) : Prop where
  free : ∀ d ∈ doc, d.processedAt = none ∧ ∀ t ∈ d.processingAt, t < now - eventLockTtl
  taken : doc' = some { processingAt := some now, processedAt := none }

theorem updateOne_spec {ttl : ℕ} {now : ℤ} {doc doc' : Option EventLockDocument} {n : ℕ}
    (h : updateOne ttl now doc = (doc', n)) :
    if n = 1 then Takes ttl now doc doc' else doc' = doc := by
  unfold updateOne at h
  split at h
  · obtain ⟨rfl, rfl⟩ := Prod.mk.inj h
    rfl
  · rename_i d
    simp only [] at h
    split_ifs at h with hfree hsame <;> obtain ⟨rfl, rfl⟩ := Prod.mk.inj h
    · rw [if_neg (by decide), hsame]
    · rw [if_pos rfl]
      exact ⟨fun d' hd => Option.some.inj hd ▸ hfree, rfl⟩
    · rfl

theorem insertOne_spec {now : ℤ} {doc doc' : Option EventLockDocument} {ok : Bool}
    (h : insertOne now doc = (doc', ok)) (ttl : ℕ) :
    if ok then Takes ttl now doc doc' else doc' = doc := by
  unfold insertOne at h
  split at h <;> obtain ⟨rfl, rfl⟩ := Prod.mk.inj h
  · exact ⟨by simp, rfl⟩
  · rfl

theorem findOneAndUpdate_spec {now : ℤ} {doc doc' : Option EventLockDocument} {found : Bool}
    (h : findOneAndUpdate now doc = (doc', found)) :
    if found then ∃ d, doc = some d ∧ d.processedAt = none ∧
      doc' = some { d with processedAt := some now } else doc' = doc := by
  unfold findOneAndUpdate at h
  split at h
  · obtain ⟨rfl, rfl⟩ := Prod.mk.inj h
    rfl
  · rename_i d
    split_ifs at h with hp <;> obtain ⟨rfl, rfl⟩ := Prod.mk.inj h
    · exact ⟨d, rfl, hp, rfl⟩
    · rfl

end MongoEventLocker

namespace MongoProjecting

open Machine (ReachIf)
open MongoEventLocker (Takes updateOne_spec insertOne_spec findOneAndUpdate_spec eventLocks_set)

variable {ttl : ℕ} {record : String → Bool} {s s' : Sys} {a : Action} {d : ℕ} {dl : Delivery}

theorem deliveries_goOn (s : Sys) (d d' : ℕ) (dl : Delivery) (phase : Phase) :
    (s.goOn d dl phase).deliveries d' = if d' = d then some { dl with phase }
      else s.deliveries d' := by
  by_cases h : d' = d <;> simp [Sys.goOn, h]

@[simp] theorem goOn_now (s : Sys) (d : ℕ) (dl : Delivery) (phase : Phase) :
    (s.goOn d dl phase).now = s.now := rfl
@[simp] theorem goOn_locker (s : Sys) (d : ℕ) (dl : Delivery) (phase : Phase) :
    (s.goOn d dl phase).locker = s.locker := rfl
@[simp] theorem goOn_projected (s : Sys) (d : ℕ) (dl : Delivery) (phase : Phase) :
    (s.goOn d dl phase).projected = s.projected := rfl
@[simp] theorem setLock_now (s : Sys) (event : String) (doc : Option EventLockDocument) :
    (s.setLock event doc).now = s.now := rfl
@[simp] theorem setLock_deliveries (s : Sys) (event : String) (doc : Option EventLockDocument) :
    (s.setLock event doc).deliveries = s.deliveries := rfl
@[simp] theorem setLock_projected (s : Sys) (event : String) (doc : Option EventLockDocument) :
    (s.setLock event doc).projected = s.projected := rfl

theorem eventLocks_setLock (s : Sys) (event event' : String) (doc : Option EventLockDocument) :
    (s.setLock event doc).locker.eventLocks event' =
      if event' = event then doc else s.locker.eventLocks event' :=
  eventLocks_set ..

/-! ## What a step does -/

/-- The times a delivery goes by: when it read the clock, before it has the lock. -/
def Phase.tries : Phase → Option ℤ
  | .updateOne now => some now
  | .insertOne now => some now
  | .updated now modifiedCount => if modifiedCount = 1 then none else some now
  | _ => none

/-- The delivery has the lock since the time, and has not marked the event yet. -/
def Phase.has : Phase → Option ℤ
  | .updated now modifiedCount => if modifiedCount = 1 then some now else none
  | .inserted now ok => if ok then some now else none
  | .handling now => some now
  | .markAsProjected now => some now
  | .findOneAndUpdate now _ => some now
  | _ => none

theorem Phase.has_of_starts {p : Phase} {now : ℤ} (h : p.starts = some now) :
    p.has = some now := by
  cases p <;> first | exact h | cases h

/-- The steps, as far as the locks go. -/
inductive Effect (ttl : ℕ) (s : Sys) (a : Action) : Sys → Prop
  /-- Time goes by. -/
  | tick (ms : ℕ) : Effect ttl s a { s with now := s.now + ms }
  /-- A delivery goes on; it does not come to have a lock this way. -/
  | goOn (d : ℕ) (dl : Delivery) (phase : Phase) (lastEvent : Option String) :
      (∀ now, phase.tries = some now → now ≤ s.now) →
      (∀ now, phase.has = some now → ∃ dl', s.deliveries d = some dl' ∧ dl'.event = dl.event ∧
        dl'.phase.has = some now) →
      Effect ttl s a ({ s with lastEvent }.goOn d dl phase)
  /-- A delivery takes the lock. -/
  | take (d : ℕ) (dl : Delivery) (now : ℤ) (phase : Phase) (doc : Option EventLockDocument) :
      now ≤ s.now → phase.has = some now → phase.tries = none →
      Takes ttl now (s.locker.eventLocks dl.event) doc →
      Effect ttl s a ((s.setLock dl.event doc).goOn d dl phase)
  /-- A delivery marks the event. -/
  | mark (d : ℕ) (dl : Delivery) (now processedAt : ℤ) (doc : EventLockDocument) :
      s.deliveries d = some dl → dl.phase = .findOneAndUpdate now processedAt →
      a = .run d → s.locker.eventLocks dl.event = some doc → doc.processedAt = none →
      Effect ttl s a (({ s with projected := s.projected ++ [(dl.event, d)] }.setLock dl.event
        (some { doc with processedAt := some processedAt })).goOn d dl (.marked true))

theorem setLock_same (s : Sys) (event : String) :
    s.setLock event (s.locker.eventLocks event) = s := by
  simp [Sys.setLock, MongoEventLocker.set_same]

/-- What an operation that leaves the lock does. -/
theorem Effect.of_same {doc : Option EventLockDocument} (hdoc : doc = s.locker.eventLocks dl.event)
    {phase : Phase} (h : Effect ttl s a (s.goOn d dl phase)) :
    Effect ttl s a ((s.setLock dl.event doc).goOn d dl phase) := by
  rw [hdoc, setLock_same]
  exact h

/-- A delivery that has no lock after a step. -/
theorem Effect.of_no_lock {phase : Phase} (htries : ∀ now, phase.tries = some now → now ≤ s.now)
    (hhas : phase.has = none) : Effect ttl s a (s.goOn d dl phase) :=
  .goOn d dl phase s.lastEvent htries (by simp [hhas])

/-- A delivery that keeps its lock. -/
theorem Effect.of_has {phase : Phase} (hd : s.deliveries d = some dl) (htries : phase.tries = none)
    (hhas : phase.has = dl.phase.has) : Effect ttl s a (s.goOn d dl phase) :=
  .goOn d dl phase s.lastEvent (by simp [htries]) fun now hn => ⟨dl, hd, rfl, hhas ▸ hn⟩

theorem answer_effect (hd : s.deliveries d = some dl)
    (htries : ∀ now, dl.phase.tries = some now → now ≤ s.now)
    (hst : answer record s d dl = some s') : Effect ttl s a s' := by
  unfold answer at hst
  split at hst
  · obtain rfl := Option.some.inj hst
    exact .of_no_lock (fun now hn => Int.le_of_eq (Option.some.inj hn).symm) rfl
  · rename_i now modifiedCount hp
    obtain rfl := Option.some.inj hst
    split_ifs with hm
    · exact .of_has hd rfl (by simp [hp, Phase.has, hm])
    · refine .of_no_lock (fun now' hn => htries now' ?_) rfl
      simpa [hp, Phase.tries, hm] using hn
  · rename_i now ok hp
    obtain rfl := Option.some.inj hst
    split_ifs with hok
    · exact .of_has hd rfl (by simp [hp, Phase.has, hok])
    · exact .of_no_lock (by simp [Phase.tries]) rfl
  · rename_i now hp
    obtain rfl := Option.some.inj hst
    exact .of_has hd rfl (by simp [hp, Phase.has])
  · split_ifs at hst <;> obtain rfl := Option.some.inj hst
    all_goals exact .of_no_lock (by simp [Phase.tries]) rfl
  · cases hst

theorem run_effect (hd : s.deliveries d = some dl)
    (htries : ∀ now, dl.phase.tries = some now → now ≤ s.now)
    (hst : run ttl s d dl = some s') : Effect ttl s (.run d) s' := by
  unfold run at hst
  split at hst
  · rename_i now hp
    have hnow : now ≤ s.now := htries now (by rw [hp]; rfl)
    rcases hop : MongoEventLocker.updateOne ttl now (s.locker.eventLocks dl.event) with ⟨doc, n⟩
    rw [hop] at hst
    obtain rfl := Option.some.inj hst
    have hspec := updateOne_spec hop
    split_ifs at hspec with hn
    · exact .take d dl now _ doc hnow (by simp [Phase.has, hn]) (by simp [Phase.tries, hn]) hspec
    · refine .of_same hspec (.of_no_lock (fun now' hn' => ?_) (by simp [Phase.has, hn]))
      obtain rfl : now = now' := by simpa [Phase.tries, hn] using hn'
      exact hnow
  · rename_i now hp
    have hnow : now ≤ s.now := htries now (by rw [hp]; rfl)
    rcases hop : MongoEventLocker.insertOne now (s.locker.eventLocks dl.event) with ⟨doc, ok⟩
    rw [hop] at hst
    obtain rfl := Option.some.inj hst
    have hspec := insertOne_spec hop ttl
    split_ifs at hspec with hok
    · exact .take d dl now _ doc hnow (by simp [Phase.has, hok]) rfl hspec
    · exact .of_same hspec (.of_no_lock (by simp [Phase.tries]) (by simp [Phase.has, hok]))
  · rename_i now processedAt hp
    rcases hop : MongoEventLocker.findOneAndUpdate processedAt (s.locker.eventLocks dl.event) with
      ⟨doc, found⟩
    rw [hop] at hst
    obtain rfl := Option.some.inj hst
    have hspec := findOneAndUpdate_spec hop
    split_ifs at hspec with hfound
    · obtain ⟨doc, hdoc, hfree, rfl⟩ := hspec
      rw [if_pos hfound, hfound]
      exact .mark d dl now processedAt doc hd hp rfl hdoc hfree
    · rw [if_neg hfound]
      exact .of_same hspec (.of_no_lock (by simp [Phase.tries]) rfl)
  · obtain rfl := Option.some.inj hst
    exact .goOn d dl _ _ (by simp [Phase.tries]) (by simp [Phase.has])
  · cases hst

/-! ## What is kept -/

structure Marked (s : Sys) : Prop where
  marked : ∀ p ∈ s.projected, ∀ doc ∈ s.locker.eventLocks p.1, doc.processedAt ≠ none
  locked : ∀ p ∈ s.projected, s.locker.eventLocks p.1 ≠ none
  once : (s.projected.map (·.1)).Nodup
  tries : ∀ d dl now, s.deliveries d = some dl → dl.phase.tries = some now → now ≤ s.now

theorem step_effect (h : Marked s) (hst : step ttl record s a = some s') :
    Effect ttl s a s' := by
  cases a with
  | tick ms =>
    obtain rfl := Option.some.inj hst
    exact .tick ms
  | deliver d event =>
    unfold step at hst
    rcases hd : s.deliveries d with _ | dl
    · simp only [hd, Option.some.injEq] at hst
      subst hst
      exact .of_no_lock (by simp [Phase.tries]) rfl
    · simp [hd] at hst
  | answer d =>
    obtain ⟨dl, hd, hst⟩ := Option.bind_eq_some_iff.1 hst
    exact answer_effect hd (fun now => h.tries d dl now hd) hst
  | run d =>
    obtain ⟨dl, hd, hst⟩ := Option.bind_eq_some_iff.1 hst
    exact run_effect hd (fun now => h.tries d dl now hd) hst
  | complete d =>
    obtain ⟨dl, hd, hst⟩ := Option.bind_eq_some_iff.1 hst
    split at hst
    · rename_i now hp
      obtain rfl := Option.some.inj hst
      exact .of_has hd rfl (by simp [hp, Phase.has])
    · cases hst
  | fail d message =>
    obtain ⟨dl, hd, hst⟩ := Option.bind_eq_some_iff.1 hst
    split at hst
    · obtain rfl := Option.some.inj hst
      exact .of_no_lock (by simp [Phase.tries]) rfl
    · cases hst
  | crash d =>
    obtain ⟨dl, hd, rfl⟩ := Option.map_eq_some_iff.1 hst
    exact .of_no_lock (by simp [Phase.tries]) rfl

/-- The clock readings of the deliveries stay in the past. -/
theorem tries_goOn {t : Sys} (h : ∀ d dl now, t.deliveries d = some dl →
    dl.phase.tries = some now → now ≤ t.now) {phase : Phase}
    (hp : ∀ now, phase.tries = some now → now ≤ t.now) (d' : ℕ) (dl' : Delivery) (now : ℤ)
    (hd : (t.goOn d dl phase).deliveries d' = some dl') (hn : dl'.phase.tries = some now) :
    now ≤ t.now := by
  rw [deliveries_goOn] at hd
  split_ifs at hd with hdd
  · obtain rfl := Option.some.inj hd
    exact hp now hn
  · exact h d' dl' now hd hn

theorem marked_effect (h : Marked s) (he : Effect ttl s a s') : Marked s' := by
  cases he with
  | tick ms =>
    exact ⟨h.marked, h.locked, h.once, fun d dl now hd hn =>
      Int.le_trans (h.tries d dl now hd hn) (Int.le_add_of_nonneg_right (Int.natCast_nonneg ms))⟩
  | goOn d dl phase lastEvent htries hhas =>
    exact ⟨h.marked, h.locked, h.once, tries_goOn (t := { s with lastEvent }) h.tries htries⟩
  | take d dl now phase doc hnow hhas htries htake =>
    have hnot : ∀ p ∈ s.projected, p.1 ≠ dl.event := by
      rintro p hp hpe
      obtain ⟨doc', hdoc'⟩ := Option.ne_none_iff_exists'.1 (h.locked p hp)
      exact h.marked p hp doc' hdoc' (htake.free doc' (hpe ▸ hdoc')).1
    refine ⟨fun p hp => ?_, fun p hp => ?_, h.once,
      tries_goOn (t := s.setLock dl.event doc) h.tries (by simp [htries])⟩
    · show ∀ doc' ∈ (s.setLock dl.event doc).locker.eventLocks p.1, _
      rw [eventLocks_setLock, if_neg (hnot p hp)]
      exact h.marked p hp
    · show (s.setLock dl.event doc).locker.eventLocks p.1 ≠ none
      rw [eventLocks_setLock, if_neg (hnot p hp)]
      exact h.locked p hp
  | mark d dl now processedAt doc hd hp ha hdoc hfree =>
    have hnot : ∀ p ∈ s.projected, p.1 ≠ dl.event :=
      fun p hp hpe => h.marked p hp doc (hpe ▸ hdoc) hfree
    refine ⟨fun p hp => ?_, fun p hp => ?_, ?_, fun d' dl' now' hd' hn' => ?_⟩
    · intro doc'
      show doc' ∈ (s.setLock dl.event _).locker.eventLocks p.1 → _
      rw [eventLocks_setLock]
      rcases List.mem_append.1 hp with hp | hp
      · rw [if_neg (hnot p hp)]
        exact h.marked p hp doc'
      · obtain rfl := List.mem_singleton.1 hp
        rw [if_pos rfl]
        rintro hdoc'
        obtain rfl := Option.some.inj hdoc'
        simp
    · show (s.setLock dl.event _).locker.eventLocks p.1 ≠ none
      rw [eventLocks_setLock]
      rcases List.mem_append.1 hp with hp | hp
      · rw [if_neg (hnot p hp)]
        exact h.locked p hp
      · obtain rfl := List.mem_singleton.1 hp
        simp
    · show ((s.projected ++ [(dl.event, d)]).map (·.1)).Nodup
      rw [List.map_append, List.map_singleton, List.nodup_append]
      refine ⟨h.once, by simp, fun e he e' he' => ?_⟩
      obtain ⟨p, hp, rfl⟩ := List.mem_map.1 he
      rw [List.mem_singleton.1 he']
      exact hnot p hp
    · exact tries_goOn (t := s.setLock dl.event none) h.tries (by simp [Phase.tries]) d' dl' now'
        hd' hn'

/-- Whoever has the lock of an event has it alone until the TTL is over. -/
structure Held (ttl : ℕ) (s : Sys) : Prop where
  held : ∀ d dl now, s.deliveries d = some dl → dl.phase.has = some now → s.now ≤ now + ttl →
    s.locker.eventLocks dl.event = some { processingAt := some now, processedAt := none }
  alone : ∀ d d' dl dl' now now', s.deliveries d = some dl → s.deliveries d' = some dl' →
    dl.event = dl'.event → dl.phase.has = some now → dl'.phase.has = some now' →
    s.now ≤ now + ttl → s.now ≤ now' + ttl → d = d'

/-- What can take the lock finds nobody who has it. -/
theorem Held.not_has (h : Held ttl s) {now : ℤ} (hnow : now ≤ s.now)
    {doc : Option EventLockDocument} (htake : Takes ttl now (s.locker.eventLocks dl.event) doc)
    {d' : ℕ} {dl' : Delivery} {now' : ℤ} (hd : s.deliveries d' = some dl')
    (he : dl'.event = dl.event) (hhas : dl'.phase.has = some now') : ¬ s.now ≤ now' + ttl := by
  intro hin
  have hdoc := h.held d' dl' now' hd hhas hin
  have hold := (htake.free _ (he ▸ hdoc)).2 now' rfl
  omega

theorem held_effect (h : Held ttl s) (he : Effect ttl s a s') (hin : InTime ttl s a) :
    Held ttl s' := by
  cases he with
  | tick ms =>
    have hle : ∀ t : ℤ, s.now + ms ≤ t → s.now ≤ t := fun t ht => by omega
    exact ⟨fun d dl now hd hn ht => h.held d dl now hd hn (hle _ ht),
      fun d d' dl dl' now now' hd hd' he hn hn' ht ht' =>
        h.alone d d' dl dl' now now' hd hd' he hn hn' (hle _ ht) (hle _ ht')⟩
  | goOn d dl phase lastEvent htries hhas =>
    -- whoever has a lock after the step had it before
    have hback : ∀ d' dl' now, ({ s with lastEvent }.goOn d dl phase).deliveries d' = some dl' →
        dl'.phase.has = some now → ∃ dl₀, s.deliveries d' = some dl₀ ∧ dl₀.event = dl'.event ∧
          dl₀.phase.has = some now := by
      intro d' dl' now hd' hn
      rw [deliveries_goOn] at hd'
      split_ifs at hd' with hdd
      · obtain rfl := Option.some.inj hd'
        exact hdd ▸ hhas now hn
      · exact ⟨dl', hd', rfl, hn⟩
    refine ⟨fun d' dl' now hd' hn ht => ?_, fun d₁ d₂ dl₁ dl₂ n₁ n₂ h₁ h₂ he hn₁ hn₂ ht₁ ht₂ => ?_⟩
    · obtain ⟨dl₀, hd₀, he₀, hn₀⟩ := hback d' dl' now hd' hn
      exact he₀ ▸ h.held d' dl₀ now hd₀ hn₀ ht
    · obtain ⟨e₁, hd₁, he₁, hm₁⟩ := hback d₁ dl₁ n₁ h₁ hn₁
      obtain ⟨e₂, hd₂, he₂, hm₂⟩ := hback d₂ dl₂ n₂ h₂ hn₂
      exact h.alone d₁ d₂ e₁ e₂ n₁ n₂ hd₁ hd₂ (he₁.trans (he.trans he₂.symm)) hm₁ hm₂ ht₁ ht₂
  | take d dl now phase doc hnow hhas htries htake =>
    have hout : ∀ d' dl' now', s.deliveries d' = some dl' → dl'.event = dl.event →
        dl'.phase.has = some now' → ¬ s.now ≤ now' + ttl :=
      fun _ _ _ hd' he hn => h.not_has hnow htake hd' he hn
    refine ⟨fun d' dl' now' hd' hn ht => ?_, fun d₁ d₂ dl₁ dl₂ n₁ n₂ h₁ h₂ he hn₁ hn₂ ht₁ ht₂ => ?_⟩
    · show (s.setLock dl.event doc).locker.eventLocks dl'.event = _
      rw [deliveries_goOn] at hd'
      rw [eventLocks_setLock]
      split_ifs at hd' with hdd
      · obtain rfl := Option.some.inj hd'
        obtain rfl : now = now' := Option.some.inj (hhas.symm.trans hn)
        rw [if_pos rfl, htake.taken]
      · rw [if_neg fun he => hout d' dl' now' hd' he hn ht]
        exact h.held d' dl' now' hd' hn ht
    · rw [deliveries_goOn] at h₁ h₂
      split_ifs at h₁ h₂ with hc₁ hc₂ hc₂
      · rw [hc₁, hc₂]
      · obtain rfl := Option.some.inj h₁
        exact absurd ht₂ (hout d₂ dl₂ n₂ h₂ he.symm hn₂)
      · obtain rfl := Option.some.inj h₂
        exact absurd ht₁ (hout d₁ dl₁ n₁ h₁ he hn₁)
      · exact h.alone d₁ d₂ dl₁ dl₂ n₁ n₂ h₁ h₂ he hn₁ hn₂ ht₁ ht₂
  | mark d dl now processedAt doc hd hp ha hdoc hfree =>
    have hhas : dl.phase.has = some now := by rw [hp]; rfl
    subst ha
    have htime : s.now ≤ now + ttl := hin dl hd now (by rw [hp]; rfl)
    have hout : ∀ d' dl' now', d' ≠ d → s.deliveries d' = some dl' → dl'.event = dl.event →
        dl'.phase.has = some now' → ¬ s.now ≤ now' + ttl :=
      fun d' dl' now' hne hd' he hn ht =>
        hne (h.alone d' d dl' dl now' now hd' hd he hn hhas ht htime)
    have hback : ∀ d' dl' now', (s.goOn d dl (.marked true)).deliveries d' = some dl' →
        dl'.phase.has = some now' → d' ≠ d ∧ s.deliveries d' = some dl' := by
      intro d' dl' now' hd' hn
      rw [deliveries_goOn] at hd'
      split_ifs at hd' with hdd
      · obtain rfl := Option.some.inj hd'
        simp [Phase.has] at hn
      · exact ⟨hdd, hd'⟩
    refine ⟨fun d' dl' now' hd' hn ht => ?_, fun d₁ d₂ dl₁ dl₂ n₁ n₂ h₁ h₂ he hn₁ hn₂ ht₁ ht₂ => ?_⟩
    · obtain ⟨hne, hd₀⟩ := hback d' dl' now' hd' hn
      show (s.setLock dl.event _).locker.eventLocks dl'.event = _
      rw [eventLocks_setLock, if_neg fun he => hout d' dl' now' hne hd₀ he hn ht]
      exact h.held d' dl' now' hd₀ hn ht
    · exact h.alone d₁ d₂ dl₁ dl₂ n₁ n₂ (hback d₁ dl₁ n₁ h₁ hn₁).2 (hback d₂ dl₂ n₂ h₂ hn₂).2 he
        hn₁ hn₂ ht₁ ht₂

theorem marked_init (h : Init s) : Marked s := by
  constructor
  · simp [h.2]
  · simp [h.2]
  · simp [h.2]
  · simp [h.1]

theorem held_init (h : Init s) : Held ttl s := by
  constructor <;> simp [h.1]

theorem marked (h : (machine ttl record).Reach s) : Marked s :=
  ReachIf.invariant (P := Marked) (fun _ => marked_init)
    (fun _ _ _ hm _ hst => marked_effect hm (step_effect hm hst)) h

theorem held (h : (machine ttl record).ReachIf (InTime ttl) s) : Held ttl s :=
  ReachIf.invariant_of_reach (P := Held ttl) (fun _ => held_init)
    (fun _ _ _ hr hh hin hst => held_effect hh (step_effect (marked hr.reach) hst) hin) h

/-- Where handlers that complete do so within the TTL: an event is marked as projected once, and
no handler of it is started then within the TTL of the delivery's lock. -/
theorem at_most_once (h : (machine ttl record).ReachIf (InTime ttl) s) :
    (s.projected.map (·.1)).Nodup ∧ ∀ d dl, s.deliveries d = some dl →
      dl.phase.starts.isSome → StartsInTime ttl s (.answer d) → dl.event ∉ s.projected.map (·.1) := by
  have hm := marked h.reach
  refine ⟨hm.once, fun d dl hd hstarts htime hmem => ?_⟩
  obtain ⟨now, hnow⟩ := Option.isSome_iff_exists.1 hstarts
  have hdoc := (held h).held d dl now hd (Phase.has_of_starts hnow) (htime dl hd now hnow)
  obtain ⟨p, hp, he⟩ := List.mem_map.1 hmem
  exact hm.marked p hp _ (he ▸ hdoc) rfl

/-- The handler of a delivery fails. Another delivery locks the event after the TTL, its handler
completes, and a third delivery is refused. -/
def retried : List Action := [.deliver 0 "a", .answer 0, .run 0, .answer 0, .run 0, .answer 0,
  .fail 0 "failed", .tick 15001, .deliver 1 "a", .answer 1, .run 1, .answer 1, .complete 1,
  .answer 1, .tick 100, .run 1, .deliver 2 "a", .answer 2, .run 2, .answer 2, .run 2]

theorem at_most_once_retried : ∃ s : Sys, s.projected = [("a", 1)] ∧
    (s.projected.map (·.1)).Nodup ∧ (s.deliveries 2).map (·.phase.starts) = some none := by
  obtain ⟨s, hs, hp, hd⟩ : ∃ s, (machine 15000 fun _ => true).run {} retried = some s ∧
      s.projected = [("a", 1)] ∧ (s.deliveries 2).map (·.phase.starts) = some none :=
    ⟨_, rfl, rfl, rfl⟩
  have h0 : (machine 15000 fun _ => true).ReachIf (InTime 15000) {} := .init ⟨fun _ => rfl, rfl⟩
  exact ⟨s, hp, (at_most_once (h0.run (by decide) hs)).1, hd⟩

/-- The answer that a delivery has the lock comes after the TTL, when another delivery has locked
the event and its handler has completed. -/
def answeredLate : List Action := [.deliver 0 "a", .answer 0, .run 0, .answer 0, .run 0,
  .tick 15001, .deliver 1 "a", .answer 1, .run 1, .answer 1, .complete 1, .answer 1, .run 1]

theorem at_most_once_fails :
    ¬ ∀ (ttl : ℕ) (record : String → Bool) (s : Sys),
      (machine ttl record).ReachIf (InTime ttl) s →
      (s.projected.map (·.1)).Nodup ∧ ∀ d dl, s.deliveries d = some dl →
        dl.phase.starts.isSome → dl.event ∉ s.projected.map (·.1) := by
  intro hall
  obtain ⟨s, hs, hd, hp⟩ : ∃ s, (machine 15000 fun _ => true).run {} answeredLate = some s ∧
      s.deliveries 0 = some { event := "a", phase := .inserted 0 true } ∧
      s.projected = [("a", 1)] := ⟨_, rfl, rfl, rfl⟩
  have h0 : (machine 15000 fun _ => true).ReachIf (InTime 15000) {} := .init ⟨fun _ => rfl, rfl⟩
  exact (hall 15000 _ s (h0.run (by decide) hs)).2 0 _ hd rfl (by simp [hp])

end MongoProjecting

end NodeCqrs
