import Mathlib.Tactic.Common
import NodeCqrs.Mongo.ViewLocker

/-!
# Mutual exclusion of `MongoViewLocker`

Every operation of `prolongLock()` and `unlock()` names the token of its locker, so the document of
a locker that holds the lock is changed by that locker alone (`Covered`). But a call reads the token
when it sends its operation and `unlock()` clears it when it ends: a `lock()` that is called before
an `unlock()` of the same locker has resolved gives the old call the new token
(`lock_returns_fails`). Where calls take turns (`InTurn`) and `lock()` returns before its lease is
over, it returns to one locker at a time (`lock_returns_alone`).
-/

namespace NodeCqrs

namespace MongoViewLocker

open Machine (ReachIf)

/-! ## The operations -/

theorem updateOne_spec {now lockedTill : ℤ} {token : Option LockToken}
    {doc doc' : Option ViewLockDocument} {n : ℕ} (h : updateOne now lockedTill token doc = (doc', n)) :
    if n = 1 then ∃ d, doc = some d ∧ (∀ t ∈ d.lockedTill, t < now) ∧
      doc' = some { d with lockedTill := some lockedTill, token } else doc' = doc := by
  unfold updateOne at h
  split at h
  · obtain ⟨rfl, rfl⟩ := Prod.mk.inj h
    rfl
  · rename_i d
    simp only [] at h
    split_ifs at h with hfree hsame <;> obtain ⟨rfl, rfl⟩ := Prod.mk.inj h
    · rw [if_neg (by decide), hsame]
    · rw [if_pos rfl]
      exact ⟨d, rfl, hfree, rfl⟩
    · rfl

theorem insertOne_spec {lockedTill : ℤ} {token : Option LockToken}
    {doc doc' : Option ViewLockDocument} {ok : Bool} (h : insertOne lockedTill token doc = (doc', ok)) :
    if ok then doc = none ∧ doc' = some { lockedTill := some lockedTill, token }
      else doc' = doc := by
  unfold insertOne at h
  split at h <;> obtain ⟨rfl, rfl⟩ := Prod.mk.inj h
  · exact ⟨rfl, rfl⟩
  · rfl

theorem prolong_spec {lockedTill : ℤ} {token : Option LockToken}
    {doc doc' : Option ViewLockDocument} {found : Bool}
    (h : prolong lockedTill token doc = (doc', found)) :
    if found then ∃ d, doc = some d ∧ d.token = token ∧
      doc' = some { d with lockedTill := some lockedTill } else doc' = doc := by
  unfold prolong at h
  split at h
  · obtain ⟨rfl, rfl⟩ := Prod.mk.inj h
    rfl
  · rename_i d
    split_ifs at h with hsame <;> obtain ⟨rfl, rfl⟩ := Prod.mk.inj h
    · exact ⟨d, rfl, hsame, rfl⟩
    · rfl

theorem release_spec {token : Option LockToken} {doc doc' : Option ViewLockDocument} {found : Bool}
    (h : release token doc = (doc', found)) :
    if found then ∃ d, doc = some d ∧ d.token = token ∧
      doc' = some { d with lockedTill := none, token := none } else doc' = doc := by
  unfold release at h
  split at h
  · obtain ⟨rfl, rfl⟩ := Prod.mk.inj h
    rfl
  · rename_i d
    split_ifs at h with hsame <;> obtain ⟨rfl, rfl⟩ := Prod.mk.inj h
    · exact ⟨d, rfl, hsame, rfl⟩
    · rfl

/-! ## Calls that take turns -/

def Phase.locking : Phase → Prop
  | .lock | .updateOne .. | .updated .. | .insertOne .. | .inserted _ | .delay _ => True
  | _ => False

def Phase.unlocking : Phase → Prop
  | .unlock | .release _ | .released => True
  | _ => False

/-- The token of the operation the call has sent. -/
def Phase.token : Phase → Option (Option LockToken)
  | .updateOne _ _ token => some token
  | .insertOne _ token => some token
  | .prolong _ token => some token
  | .release token => some token
  | _ => none

/-- `lock()` is called when every `unlock()` of the locker has resolved and no operation of it is
under way that was sent without a token, and `unlock()` when every `lock()` has returned; and
`lock()` returns before the expiry the locker last wrote is in the past. -/
def InTurn (s : Sys) : Action → Prop
  | .lock _ i => ∀ c call, s.calls c = some call → call.locker = i →
      ¬ call.phase.unlocking ∧ call.phase.token ≠ some none
  | .unlock _ i => ∀ c call, s.calls c = some call → call.locker = i → ¬ call.phase.locking
  | .goOn c => ∀ call, s.calls c = some call → call.phase.obtained →
      ∃ t, (s.lockers call.locker).lastWritten = some t ∧ s.now ≤ t
  | _ => True

/-- The locker has called `lock()` and not called `unlock()` since. -/
def Engaged (s : Sys) (i : ℕ) : Prop :=
  (s.lockers i).locked ∨ ∃ c call, s.calls c = some call ∧ call.locker = i ∧ call.phase.locking

/-- The locker has the lock, as far as it knows or is about to. -/
def Owner (s : Sys) (i : ℕ) : Prop :=
  (s.lockers i).locked ∨ ∃ c call, s.calls c = some call ∧ call.locker = i ∧ call.phase.obtained

/-- The document is the locker's until the time. -/
def Owns (doc : Option ViewLockDocument) (i : ℕ) (till : ℤ) : Prop :=
  ∃ d token, doc = some d ∧ d.lockedTill = some till ∧ d.token = some token ∧ token.locker = i

structure Inv (s : Sys) : Prop where
  /-- A locker's token is its own, and so is that of each operation it has sent. -/
  own : ∀ i token, (s.lockers i).lockToken = some token → token.locker = i
  sent : ∀ c call token, s.calls c = some call → call.phase.token = some (some token) →
    token.locker = call.locker
  /-- While a locker is engaged, it has a token and releases nothing. -/
  named : ∀ i, Engaged s i → (s.lockers i).lockToken ≠ none
  turn : ∀ i, Engaged s i → ∀ c call, s.calls c = some call → call.locker = i →
    ¬ call.phase.unlocking ∧ call.phase.token ≠ some none
  clock : ∀ c call now lockedTill token, s.calls c = some call →
    call.phase = .updateOne now lockedTill token → now ≤ s.now
  covered : ∀ i, Owner s i → ∀ t, (s.lockers i).lastWritten = some t → s.now ≤ t → Owns s.doc i t

theorem Owner.engaged {s : Sys} {i : ℕ} (h : Owner s i) : Engaged s i := by
  rcases h with h | ⟨c, call, hc, hi, hp⟩
  · exact .inl h
  · refine .inr ⟨c, call, hc, hi, ?_⟩
    rcases hphase : call.phase <;> simp_all [Phase.obtained, Phase.locking]

/-! ## What a step keeps -/

variable {viewLockTtl : ℕ → ℤ} {s s' : Sys} {c : ℕ} {call : Call}

theorem calls_setCall (s : Sys) (c c' : ℕ) (call : Option Call) :
    (s.setCall c call).calls c' = if c' = c then call else s.calls c' := by
  by_cases h : c' = c <;> simp [Sys.setCall, h]

theorem lockers_setLocker (s : Sys) (i j : ℕ) (l : Locker) :
    (s.setLocker i l).lockers j = if j = i then l else s.lockers j := by
  by_cases h : j = i <;> simp [Sys.setLocker, h]

theorem field_setLocker {α : Type} (f : Locker → α) {i : ℕ} {l : Locker}
    (hf : f l = f (s.lockers i)) (j : ℕ) : f ((s.setLocker i l).lockers j) = f (s.lockers j) := by
  rw [lockers_setLocker]
  split_ifs with hji
  · rw [hji, hf]
  · rfl

theorem of_setCall {new : Option Call} {c' : ℕ} {call' : Call}
    (hc : (s.setCall c new).calls c' = some call') :
    s.calls c' = some call' ∨ new = some call' := by
  rw [calls_setCall] at hc
  split_ifs at hc
  · exact .inr hc
  · exact .inl hc

theorem exists_of_setCall {new : Option Call} {i : ℕ} {P : Phase → Prop}
    (h : ∃ c' call', (s.setCall c new).calls c' = some call' ∧ call'.locker = i ∧ P call'.phase) :
    (∃ c' call', s.calls c' = some call' ∧ call'.locker = i ∧ P call'.phase)
      ∨ ∃ call, new = some call ∧ call.locker = i ∧ P call.phase := by
  obtain ⟨c', call', hc, hi, hp⟩ := h
  rcases of_setCall hc with hc | hc
  · exact .inl ⟨c', call', hc, hi, hp⟩
  · exact .inr ⟨call', hc, hi, hp⟩

theorem Engaged.of_setCall {new : Option Call} {i : ℕ} (h : Engaged (s.setCall c new) i) :
    Engaged s i ∨ ∃ call, new = some call ∧ call.locker = i ∧ call.phase.locking := by
  rcases h with hl | hx
  · exact .inl (.inl hl)
  · exact (exists_of_setCall hx).imp_left .inr

theorem Owner.of_setCall {new : Option Call} {i : ℕ} (h : Owner (s.setCall c new) i) :
    Owner s i ∨ ∃ call, new = some call ∧ call.locker = i ∧ call.phase.obtained := by
  rcases h with hl | hx
  · exact .inl (.inl hl)
  · exact (exists_of_setCall hx).imp_left .inr

theorem Engaged.of_setLocker {i j : ℕ} {l : Locker} (hlocked : l.locked = (s.lockers i).locked)
    (h : Engaged (s.setLocker i l) j) : Engaged s j :=
  h.imp_left (field_setLocker (·.locked) hlocked j ▸ ·)

theorem Owner.of_setLocker {i j : ℕ} {l : Locker} (hlocked : l.locked = (s.lockers i).locked)
    (h : Owner (s.setLocker i l) j) : Owner s j :=
  h.imp_left (field_setLocker (·.locked) hlocked j ▸ ·)

/-- A call goes on, or starts or ends, without an operation of its own being run. -/
structure Moves (s : Sys) (c i : ℕ) (phase : Phase) : Prop where
  locking : phase.locking → Engaged s i
  unlocking : phase.unlocking → ∃ old, s.calls c = some old ∧ old.locker = i ∧ old.phase.unlocking
  obtained : phase.obtained → Owner s i
  token : ∀ token, phase.token = some token → token = (s.lockers i).lockToken
  clock : ∀ now lockedTill token, phase = .updateOne now lockedTill token → now ≤ s.now

theorem Inv.end (h : Inv s) (c : ℕ) : Inv (s.setCall c none) := by
  have hback : ∀ c' call', (s.setCall c none).calls c' = some call' → s.calls c' = some call' :=
    fun c' call' hc => (of_setCall hc).resolve_right (by simp)
  have hengaged : ∀ i, Engaged (s.setCall c none) i → Engaged s i :=
    fun i hi => hi.of_setCall.resolve_right (by simp)
  have howner : ∀ i, Owner (s.setCall c none) i → Owner s i :=
    fun i hi => hi.of_setCall.resolve_right (by simp)
  exact ⟨h.own, fun c' call' token hc => h.sent c' call' token (hback c' call' hc),
    fun i hi => h.named i (hengaged i hi),
    fun i hi c' call' hc => h.turn i (hengaged i hi) c' call' (hback c' call' hc),
    fun c' call' now lockedTill token hc =>
      h.clock c' call' now lockedTill token (hback c' call' hc),
    fun i hi => h.covered i (howner i hi)⟩

theorem Inv.move (h : Inv s) {i : ℕ} {phase : Phase} (hm : Moves s c i phase) :
    Inv (s.setCall c (some { locker := i, phase })) := by
  have hengaged : ∀ j, Engaged (s.setCall c (some { locker := i, phase })) j → Engaged s j := by
    intro j hj
    rcases hj.of_setCall with hj | ⟨call', hc, hi, hp⟩
    · exact hj
    · obtain rfl := Option.some.inj hc
      exact hi ▸ hm.locking hp
  refine ⟨h.own, fun c' call' token hc ht => ?_, fun j hj => h.named j (hengaged j hj),
    fun j hj c' call' hc hl => ?_, fun c' call' now lockedTill token hc hp => ?_, fun j hj => ?_⟩
  · rcases of_setCall hc with hc | hc
    · exact h.sent c' call' token hc ht
    · obtain rfl := Option.some.inj hc
      exact h.own i token (hm.token _ ht).symm
  · rcases of_setCall hc with hc | hc
    · exact h.turn j (hengaged j hj) c' call' hc hl
    · obtain rfl := Option.some.inj hc
      obtain rfl : i = j := hl
      refine ⟨fun hu => ?_, fun ht => ?_⟩
      · obtain ⟨old, hold, holdi, holdp⟩ := hm.unlocking hu
        exact (h.turn i (hengaged i hj) c old hold holdi).1 holdp
      · exact h.named i (hengaged i hj) (hm.token none ht).symm
  · rcases of_setCall hc with hc | hc
    · exact h.clock c' call' now lockedTill token hc hp
    · obtain rfl := Option.some.inj hc
      exact hm.clock now lockedTill token hp
  · rcases hj.of_setCall with hj | ⟨call', hc, hi, hp⟩
    · exact h.covered j hj
    · obtain rfl := Option.some.inj hc
      exact hi ▸ h.covered i (hm.obtained hp)

/-- Timers, markers and handles are nothing to the invariant. -/
theorem Inv.congr (h : Inv s) (hnow : s'.now = s.now) (hdoc : s'.doc = s.doc)
    (hcalls : s'.calls = s.calls)
    (htoken : ∀ i, (s'.lockers i).lockToken = (s.lockers i).lockToken)
    (hlocked : ∀ i, (s'.lockers i).locked = (s.lockers i).locked)
    (hwritten : ∀ i, (s'.lockers i).lastWritten = (s.lockers i).lastWritten) : Inv s' := by
  have hengaged : ∀ i, Engaged s' i ↔ Engaged s i := by
    intro i
    unfold Engaged
    rw [hlocked, hcalls]
  have howner : ∀ i, Owner s' i ↔ Owner s i := by
    intro i
    unfold Owner
    rw [hlocked, hcalls]
  constructor
  · intro i token
    rw [htoken]
    exact h.own i token
  · rw [hcalls]
    exact h.sent
  · intro i hi
    rw [htoken]
    exact h.named i ((hengaged i).1 hi)
  · intro i hi
    rw [hcalls]
    exact h.turn i ((hengaged i).1 hi)
  · rw [hcalls, hnow]
    exact h.clock
  · intro i hi t
    rw [hwritten, hnow, hdoc]
    exact h.covered i ((howner i).1 hi) t

theorem Inv.tick (h : Inv s) (ms : ℕ) : Inv { s with now := s.now + ms } := by
  have hle : s.now ≤ s.now + ms := Int.le_add_of_nonneg_right (Int.natCast_nonneg ms)
  exact ⟨h.own, h.sent, h.named, h.turn,
    fun c call now lockedTill token hc hp =>
      Int.le_trans (h.clock c call now lockedTill token hc hp) hle,
    fun i hi t ht hnow => h.covered i hi t ht (Int.le_trans hle hnow)⟩

theorem Inv.lock (h : Inv s) {i : ℕ} {l : Locker} (hlocked : l.locked = (s.lockers i).locked)
    (hwritten : l.lastWritten = (s.lockers i).lastWritten)
    (htoken : ∃ n, l.lockToken = some { locker := i, n }) (hturn : InTurn s (.lock c i)) :
    Inv ((s.setLocker i l).setCall c (some { locker := i, phase := .lock })) := by
  obtain ⟨n, htoken⟩ := htoken
  have hl := lockers_setLocker s i (l := l)
  have hengaged : ∀ j, j ≠ i → Engaged ((s.setLocker i l).setCall c
      (some { locker := i, phase := .lock })) j → Engaged s j := by
    intro j hji hj
    rcases hj.of_setCall with hj | ⟨call', hc, hi, -⟩
    · exact hj.of_setLocker hlocked
    · obtain rfl := Option.some.inj hc
      exact absurd hi.symm hji
  refine ⟨fun j token ht => ?_, fun c' call' token hc ht => ?_, fun j hj => ?_,
    fun j hj c' call' hc hcj => ?_, fun c' call' now lockedTill token hc hp => ?_,
    fun j hj t ht hn => ?_⟩
  · change ((s.setLocker i l).lockers j).lockToken = some token at ht
    rw [hl] at ht
    split_ifs at ht with hji
    · rw [htoken] at ht
      rw [← Option.some.inj ht, hji]
    · exact h.own j token ht
  · rcases of_setCall hc with hc | hc
    · exact h.sent c' call' token hc ht
    · obtain rfl := Option.some.inj hc
      cases ht
  · change ((s.setLocker i l).lockers j).lockToken ≠ none
    rw [hl]
    split_ifs with hji
    · simp [htoken]
    · exact h.named j (hengaged j hji hj)
  · rcases of_setCall hc with hc | hc
    · by_cases hji : j = i
      · exact hturn c' call' hc (hcj.trans hji)
      · exact h.turn j (hengaged j hji hj) c' call' hc hcj
    · obtain rfl := Option.some.inj hc
      simp [Phase.unlocking, Phase.token]
  · rcases of_setCall hc with hc | hc
    · exact h.clock c' call' now lockedTill token hc hp
    · obtain rfl := Option.some.inj hc
      cases hp
  · have howner : Owner s j := by
      rcases hj.of_setCall with hj | ⟨call', hc, -, hp⟩
      · exact hj.of_setLocker hlocked
      · obtain rfl := Option.some.inj hc
        exact absurd hp id
    exact h.covered j howner t (field_setLocker (·.lastWritten) hwritten j ▸ ht) hn

theorem Inv.unlock (h : Inv s) {i : ℕ} {l : Locker} (hlocked : l.locked = false)
    (htoken : l.lockToken = (s.lockers i).lockToken) (hturn : InTurn s (.unlock c i)) :
    Inv ((s.setLocker i l).setCall c (some { locker := i, phase := .unlock })) := by
  have hl := lockers_setLocker s i (l := l)
  -- the locker is engaged no more, the others are as before
  have hengaged : ∀ j, Engaged ((s.setLocker i l).setCall c
      (some { locker := i, phase := .unlock })) j → j ≠ i ∧ Engaged s j := by
    intro j hj
    rcases hj.of_setCall with (hlo | ⟨c', call', hc, hcj, hp⟩) | ⟨call', hc, -, hp⟩
    · rw [hl] at hlo
      split_ifs at hlo with hji
      · simp [hlocked] at hlo
      · exact ⟨hji, .inl hlo⟩
    · exact ⟨fun hji => hturn c' call' hc (hcj.trans hji) hp, .inr ⟨c', call', hc, hcj, hp⟩⟩
    · obtain rfl := Option.some.inj hc
      exact absurd hp id
  have htok := field_setLocker (s := s) (·.lockToken) htoken
  refine ⟨fun j token ht => h.own j token (htok j ▸ ht), fun c' call' token hc ht => ?_,
    fun j hj => htok j ▸ h.named j (hengaged j hj).2, fun j hj c' call' hc hcj => ?_,
    fun c' call' now lockedTill token hc hp => ?_, fun j hj t ht hn => ?_⟩
  · rcases of_setCall hc with hc | hc
    · exact h.sent c' call' token hc ht
    · obtain rfl := Option.some.inj hc
      cases ht
  · rcases of_setCall hc with hc | hc
    · exact h.turn j (hengaged j hj).2 c' call' hc hcj
    · obtain rfl := Option.some.inj hc
      exact absurd hcj.symm (hengaged j hj).1
  · rcases of_setCall hc with hc | hc
    · exact h.clock c' call' now lockedTill token hc hp
    · obtain rfl := Option.some.inj hc
      cases hp
  · have hji := (hengaged j hj.engaged).1
    change ((s.setLocker i l).lockers j).lastWritten = some t at ht
    rw [hl, if_neg hji] at ht
    refine h.covered j ?_ t ht hn
    rcases hj.of_setCall with (hlo | hx) | ⟨call', hc, -, hp⟩
    · rw [hl, if_neg hji] at hlo
      exact .inl hlo
    · exact .inr hx
    · obtain rfl := Option.some.inj hc
      exact absurd hp id

/-- `lock()` returns to a locker that has got the lock. -/
theorem Inv.locked (h : Inv s) {i : ℕ} {l : Locker} (ho : Owner s i)
    (htoken : l.lockToken = (s.lockers i).lockToken)
    (hwritten : l.lastWritten = (s.lockers i).lastWritten) : Inv (s.setLocker i l) := by
  have howner : ∀ j, Owner (s.setLocker i l) j → Owner s j := by
    rintro j (hlo | hc)
    · rw [lockers_setLocker] at hlo
      split_ifs at hlo with hji
      · exact hji ▸ ho
      · exact .inl hlo
    · exact .inr hc
  have hengaged : ∀ j, Engaged (s.setLocker i l) j → Engaged s j := by
    rintro j (hlo | hc)
    · exact (howner j (.inl hlo)).engaged
    · exact .inr hc
  have htok := field_setLocker (s := s) (·.lockToken) htoken
  have hwr := field_setLocker (s := s) (·.lastWritten) hwritten
  exact ⟨fun j token => htok j ▸ h.own j token, h.sent,
    fun j hj => htok j ▸ h.named j (hengaged j hj), fun j hj => h.turn j (hengaged j hj), h.clock,
    fun j hj t ht => h.covered j (howner j hj) t (hwr j ▸ ht)⟩

/-- `unlock()` ends and clears the token of a locker that is not engaged. -/
theorem Inv.cleared (h : Inv s) {i : ℕ} {l : Locker} (he : ¬ Engaged s i)
    (htoken : l.lockToken = none) (hlocked : l.locked = (s.lockers i).locked)
    (hwritten : l.lastWritten = (s.lockers i).lastWritten) : Inv (s.setLocker i l) := by
  have hl := lockers_setLocker s i (l := l)
  refine ⟨fun j token ht => ?_, h.sent, fun j hj => ?_,
    fun j hj => h.turn j (hj.of_setLocker hlocked), h.clock, fun j hj t ht =>
      h.covered j (hj.of_setLocker hlocked) t (field_setLocker (·.lastWritten) hwritten j ▸ ht)⟩
  · rw [hl] at ht
    split_ifs at ht with hji
    · simp [htoken] at ht
    · exact h.own j token ht
  · rw [hl]
    split_ifs with hji
    · exact absurd (hji ▸ hj.of_setLocker hlocked) he
    · exact h.named j (hj.of_setLocker hlocked)

/-- No other locker owns the document. -/
def Others (s : Sys) (i : ℕ) : Prop := ∀ j ≠ i, ∀ t, s.now ≤ t → ¬ Owns s.doc j t

/-- The locker writes an expiry into the document, which is its own then or is no engaged locker's. -/
theorem Inv.write (h : Inv s) {i : ℕ} {phase : Phase} {lockedTill : ℤ}
    {doc : Option ViewLockDocument} (hothers : Others s i) (hphase : phase.token = none)
    (hunlocking : ¬ phase.unlocking) (hlocking : phase.locking → Engaged s i)
    (howns : Engaged s i → Owns doc i lockedTill) :
    Inv ({ s.wrote i lockedTill with doc }.setCall c (some { locker := i, phase })) := by
  have hlo : ∀ j, ((s.wrote i lockedTill).lockers j).locked = (s.lockers j).locked :=
    field_setLocker (·.locked) rfl
  have htok : ∀ j, ((s.wrote i lockedTill).lockers j).lockToken = (s.lockers j).lockToken :=
    field_setLocker (·.lockToken) rfl
  have hengaged : ∀ j, Engaged ({ s.wrote i lockedTill with doc }.setCall c
      (some { locker := i, phase })) j → Engaged s j := by
    intro j hj
    rcases hj.of_setCall with (hlj | hx) | ⟨call', hc, hi, hp⟩
    · exact .inl (hlo j ▸ hlj)
    · exact .inr hx
    · obtain rfl := Option.some.inj hc
      exact hi ▸ hlocking hp
  refine ⟨fun j token ht => h.own j token (htok j ▸ ht), fun c' call' token hc ht => ?_,
    fun j hj => ?_, fun j hj c' call' hc hcj => ?_,
    fun c' call' now lockedTill' token hc hp => ?_, fun j hj t ht hn => ?_⟩
  · rcases of_setCall hc with hc | hc
    · exact h.sent c' call' token hc ht
    · obtain rfl := Option.some.inj hc
      exact absurd (hphase.symm.trans ht) (by simp)
  · exact fun ht => h.named j (hengaged j hj) (htok j ▸ ht)
  · rcases of_setCall hc with hc | hc
    · exact h.turn j (hengaged j hj) c' call' hc hcj
    · obtain rfl := Option.some.inj hc
      exact ⟨hunlocking, by simp [hphase]⟩
  · rcases of_setCall hc with hc | hc
    · exact h.clock c' call' now lockedTill' token hc hp
    · obtain rfl := Option.some.inj hc
      obtain rfl : phase = _ := hp
      cases hphase
  · change ((s.wrote i lockedTill).lockers j).lastWritten = some t at ht
    rw [Sys.wrote, lockers_setLocker] at ht
    split_ifs at ht with hji
    · obtain rfl := Option.some.inj ht
      exact hji ▸ howns (hji ▸ hengaged j hj.engaged)
    · refine absurd (h.covered j ?_ t ht hn) (hothers j hji t hn)
      rcases hj.of_setCall with (hlj | hx) | ⟨call', hc, hi, -⟩
      · exact .inl (hlo j ▸ hlj)
      · exact .inr hx
      · obtain rfl := Option.some.inj hc
        exact absurd hi.symm hji

/-- A locker that is not engaged releases a document no other locker owns. -/
theorem Inv.freed (h : Inv s) {i : ℕ} {doc : Option ViewLockDocument} (hothers : Others s i)
    (he : ¬ Engaged s i) : Inv { s with doc } := by
  refine ⟨h.own, h.sent, h.named, h.turn, h.clock, fun j hj t ht hn => ?_⟩
  have hji : j ≠ i := fun hji => he (hji ▸ Owner.engaged (s := s) hj)
  exact absurd (h.covered j hj t ht hn) (hothers j hji t hn)

theorem others_of_free (hfree : ∀ d ∈ s.doc, ∀ t ∈ d.lockedTill, t < s.now) (i : ℕ) :
    Others s i := by
  rintro j - t hn ⟨d, token, hd, ht, -⟩
  have := hfree d hd t ht
  omega

theorem others_of_token {i : ℕ} {token : Option LockToken} {d : ViewLockDocument}
    (hd : s.doc = some d) (ht : d.token = token) (hi : ∀ t, token = some t → t.locker = i) :
    Others s i := by
  rintro j hji t hn ⟨d', token', hd', -, ht', hj⟩
  obtain rfl : d = d' := Option.some.inj (hd.symm.trans hd')
  exact hji (hj.symm.trans (hi token' (ht.symm.trans ht')))

theorem engaged_of_locking (hc : s.calls c = some call) (hp : call.phase.locking) :
    Engaged s call.locker := .inr ⟨c, call, hc, rfl, hp⟩

theorem inv_run (h : Inv s) (hc : s.calls c = some call) (hst : run s c call = some s') :
    Inv s' := by
  -- a call that has sent its operation goes on with an answer that is no news
  have hmove : ∀ phase : Phase, phase.token = none → (phase.locking → call.phase.locking) →
      (phase.unlocking → call.phase.unlocking) → ¬ phase.obtained →
      Inv (s.setCall c (some { call with phase })) := by
    intro phase htoken hlocking hunlocking hobtained
    refine h.move ⟨fun hp => engaged_of_locking hc (hlocking hp),
      fun hp => ⟨call, hc, rfl, hunlocking hp⟩, fun hp => absurd hp hobtained,
      fun token ht => by simp [htoken] at ht, ?_⟩
    rintro now lockedTill token rfl
    cases htoken
  unfold run at hst
  split at hst
  · rename_i now lockedTill token hp
    have hlocking : call.phase.locking := by rw [hp]; trivial
    have hengaged := engaged_of_locking hc hlocking
    rcases hop : updateOne now lockedTill token s.doc with ⟨doc, n⟩
    simp only [hop, Option.some.injEq] at hst
    subst hst
    have hspec := updateOne_spec hop
    split_ifs at hspec with hn
    · obtain ⟨d, hd, hfree, rfl⟩ := hspec
      have hclock := h.clock c call now lockedTill token hc hp
      rw [if_pos hn]
      refine h.write (others_of_free (fun d' hd' t ht => ?_) _) rfl id (fun _ => hengaged)
        fun _ => ?_
      · obtain rfl : d = d' := Option.some.inj (hd.symm.trans hd')
        exact Int.lt_of_lt_of_le (hfree t ht) hclock
      · rcases htok : token with _ | t
        · exact absurd (by rw [hp, htok]; rfl) (h.turn _ hengaged c call hc rfl).2
        · exact ⟨_, t, rfl, rfl, rfl, h.sent c call t hc (by rw [hp, htok]; rfl)⟩
    · rw [if_neg hn, hspec]
      exact hmove _ rfl (fun _ => hlocking) (fun hu => absurd hu id)
        (by simpa [Phase.obtained] using hn)
  · rename_i lockedTill token hp
    have hlocking : call.phase.locking := by rw [hp]; trivial
    have hengaged := engaged_of_locking hc hlocking
    rcases hop : insertOne lockedTill token s.doc with ⟨doc, ok⟩
    simp only [hop, Option.some.injEq] at hst
    subst hst
    have hspec := insertOne_spec hop
    split_ifs at hspec with hok
    · obtain ⟨hd, rfl⟩ := hspec
      rw [if_pos hok]
      refine h.write (others_of_free (by simp [hd]) _) rfl id (fun _ => hengaged) fun _ => ?_
      rcases htok : token with _ | t
      · exact absurd (by rw [hp, htok]; rfl) (h.turn _ hengaged c call hc rfl).2
      · exact ⟨_, t, rfl, rfl, rfl, h.sent c call t hc (by rw [hp, htok]; rfl)⟩
    · rw [if_neg hok, hspec]
      exact hmove _ rfl (fun _ => hlocking) (fun hu => absurd hu id)
        (by simpa [Phase.obtained] using hok)
  · rename_i lockedTill token hp
    have hsent : ∀ t, token = some t → t.locker = call.locker :=
      fun t ht => h.sent c call t hc (by rw [hp, ht]; rfl)
    rcases hop : prolong lockedTill token s.doc with ⟨doc, found⟩
    simp only [hop, Option.some.injEq] at hst
    subst hst
    have hspec := prolong_spec hop
    split_ifs at hspec with hfound
    · obtain ⟨d, hd, ht, rfl⟩ := hspec
      rw [if_pos hfound]
      refine h.write (others_of_token hd ht hsent) rfl id (fun hl => absurd hl id) fun he => ?_
      rcases htok : token with _ | t
      · exact absurd (by rw [hp, htok]; rfl) (h.turn _ he c call hc rfl).2
      · exact ⟨_, t, rfl, rfl, by rw [← htok, ht], hsent t htok⟩
    · rw [if_neg hfound, hspec]
      exact hmove _ rfl (fun hl => absurd hl id) (fun hu => absurd hu id) (by simp [Phase.obtained])
  · rename_i token hp
    have hunlocking : call.phase.unlocking := by rw [hp]; trivial
    have hsent : ∀ t, token = some t → t.locker = call.locker :=
      fun t ht => h.sent c call t hc (by rw [hp, ht]; rfl)
    have he : ¬ Engaged s call.locker := fun he => (h.turn _ he c call hc rfl).1 hunlocking
    rcases hop : release token s.doc with ⟨doc, found⟩
    simp only [hop, Option.some.injEq] at hst
    subst hst
    have hspec := release_spec hop
    have hgo := hmove .released rfl (fun hl => absurd hl id) (fun _ => hunlocking)
      (by simp [Phase.obtained])
    split_ifs at hspec with hfound
    · obtain ⟨d, hd, ht, rfl⟩ := hspec
      refine hgo.freed (i := call.locker) (others_of_token hd ht hsent) fun hen => he ?_
      rcases hen.of_setCall with hen | ⟨call', hc', -, hp'⟩
      · exact hen
      · obtain rfl := Option.some.inj hc'
        exact absurd hp' id
    · rw [hspec]
      exact hgo
  · cases hst

/-- The end of a `lock()` call that has got the lock. -/
theorem Inv.lockReturns (h : Inv s) (hc : s.calls c = some call) (ho : call.phase.obtained) :
    Inv (lockReturns viewLockTtl s c call.locker) := by
  have howner : Owner s call.locker := .inr ⟨c, call, hc, rfl, ho⟩
  let l : Locker := { s.lockers call.locker with
    locked := true, lockProlongationTimeout := some s.timers.nextHandle }
  have hlocked : Inv (s.setLocker call.locker l) := h.locked howner rfl rfl
  refine (hlocked.end c).congr rfl rfl rfl ?_ ?_ ?_
  all_goals
    intro j
    by_cases hj : j = call.locker
    · simp [MongoViewLocker.lockReturns, scheduleLockProlongation, Sys.setLocker, Sys.setCall, l, hj]
    · simp [MongoViewLocker.lockReturns, scheduleLockProlongation, Sys.setLocker, Sys.setCall, hj]

theorem Inv.scheduled (h : Inv s) (i : ℕ) : Inv (scheduleLockProlongation viewLockTtl s i) := by
  refine h.congr rfl rfl rfl ?_ ?_ ?_
  all_goals
    intro j
    by_cases hj : j = i
    · simp [scheduleLockProlongation, Sys.setLocker, hj]
    · simp [scheduleLockProlongation, Sys.setLocker, hj]

theorem inv_goOn (h : Inv s) (hc : s.calls c = some call)
    (hst : goOn viewLockTtl s c call = some s') : Inv s' := by
  have hsend : call.phase.locking → ∀ lockedTill, Inv (s.setCall c (some
      { call with phase := .updateOne s.now lockedTill (s.lockers call.locker).lockToken })) := by
    intro hl lockedTill
    refine h.move ⟨fun _ => engaged_of_locking hc hl, fun hu => absurd hu id, fun ho => absurd ho id,
      fun token ht => (Option.some.inj ht).symm, ?_⟩
    rintro now lockedTill' token hp
    exact Int.le_of_eq (Phase.updateOne.inj hp).1.symm
  unfold goOn at hst
  simp only [] at hst
  split at hst
  · rename_i hp
    exact Option.some.inj hst ▸ hsend (by rw [hp]; trivial) _
  · rename_i lockedTill n hp
    split_ifs at hst with hn <;> obtain rfl := Option.some.inj hst
    · exact h.lockReturns hc (by rw [hp]; exact hn)
    · exact h.move ⟨fun _ => engaged_of_locking hc (by rw [hp]; trivial), fun hu => absurd hu id,
        fun ho => absurd ho id, fun token ht => (Option.some.inj ht).symm, by simp⟩
  · rename_i ok hp
    split_ifs at hst with hok <;> obtain rfl := Option.some.inj hst
    · exact h.lockReturns hc (by rw [hp]; exact hok)
    · exact h.move ⟨fun _ => engaged_of_locking hc (by rw [hp]; trivial), fun hu => absurd hu id,
        fun ho => absurd ho id, by simp [Phase.token], by simp⟩
  · rename_i till hp
    split_ifs at hst with htill
    exact Option.some.inj hst ▸ hsend (by rw [hp]; trivial) _
  · obtain rfl := Option.some.inj hst
    exact h.move ⟨fun hl => absurd hl id, fun hu => absurd hu id, fun ho => absurd ho id,
      fun token ht => (Option.some.inj ht).symm, by simp⟩
  · split_ifs at hst <;> obtain rfl := Option.some.inj hst
    · exact (h.end c).scheduled _
    · exact h.end c
  · rename_i hp
    obtain rfl := Option.some.inj hst
    exact h.move ⟨fun hl => absurd hl id, fun _ => ⟨call, hc, rfl, by rw [hp]; trivial⟩,
      fun ho => absurd ho id, fun token ht => (Option.some.inj ht).symm, by simp⟩
  · rename_i hp
    obtain rfl := Option.some.inj hst
    refine (h.end c).cleared (fun he => ?_) rfl rfl rfl
    have hen : Engaged s call.locker := he.of_setCall.resolve_right (by simp)
    exact (h.turn _ hen c call hc rfl).1 (by rw [hp]; trivial)
  · cases hst

theorem inv_step (h : Inv s) {a : Action} (hturn : InTurn s a)
    (hst : step viewLockTtl s a = some s') : Inv s' := by
  cases a with
  | tick ms =>
    obtain rfl := Option.some.inj hst
    exact h.tick ms
  | lock c i =>
    unfold step at hst
    rcases hc : s.calls c with _ | call
    · simp only [hc, Option.some.injEq] at hst
      exact hst ▸ h.lock rfl rfl ⟨_, rfl⟩ hturn
    · simp [hc] at hst
  | unlock c i =>
    unfold step at hst
    rcases hc : s.calls c with _ | call
    · simp only [hc, Option.some.injEq] at hst
      have hcancel : Inv (cancelLockProlongation s i) :=
        h.congr rfl rfl rfl (fun _ => rfl) (fun _ => rfl) fun _ => rfl
      exact hst ▸ hcancel.unlock rfl rfl hturn
    · simp [hc] at hst
  | fire c handle =>
    unfold step at hst
    simp only [] at hst
    split at hst
    · split_ifs at hst
      have hclear : Inv { s with timers := s.timers.clear handle } :=
        h.congr rfl rfl rfl (fun _ => rfl) (fun _ => rfl) fun _ => rfl
      exact Option.some.inj hst ▸ hclear.move ⟨fun hl => absurd hl id, fun hu => absurd hu id,
        fun ho => absurd ho id, by simp [Phase.token], by simp⟩
    · cases hst
  | goOn c =>
    obtain ⟨call, hc, hst⟩ := Option.bind_eq_some_iff.1 hst
    exact inv_goOn h hc hst
  | run c =>
    obtain ⟨call, hc, hst⟩ := Option.bind_eq_some_iff.1 hst
    exact inv_run h hc hst

theorem inv_init (h : Init s) : Inv s := by
  obtain ⟨hlockers, hcalls, -⟩ := h
  constructor
  · simp [hlockers]
  · simp [hcalls]
  · simp [Engaged, hlockers, hcalls]
  · simp [hcalls]
  · simp [hcalls]
  · simp [Owner, hlockers, hcalls]

theorem inv (h : (machine viewLockTtl).ReachIf InTurn s) : Inv s :=
  ReachIf.invariant (P := Inv) (fun _ => inv_init) (fun _ _ _ hi hC hst => inv_step hi hC hst) h

/-- In every run in which the calls of each locker take turns, a `lock()` call that has got the lock
returns, before the expiry its locker last wrote is in the past, when no other locker holds the
lock. -/
theorem lock_returns_alone (h : (machine viewLockTtl).ReachIf InTurn s)
    (hc : s.calls c = some call) (ho : call.phase.obtained) (ht : InTurn s (.goOn c)) :
    ∀ j ≠ call.locker, ¬ Holds s j := by
  rintro j hj ⟨hlocked, t, hw, hn⟩
  obtain ⟨t', hw', hn'⟩ := ht call hc ho
  obtain ⟨d, token, hd, -, htoken, hown⟩ := (inv h).covered _ (.inr ⟨c, call, hc, rfl, ho⟩) t' hw' hn'
  obtain ⟨d', token', hd', -, htoken', hown'⟩ := (inv h).covered j (.inl hlocked) t hw hn
  obtain rfl : d = d' := Option.some.inj (hd.symm.trans hd')
  obtain rfl : token = token' := Option.some.inj (htoken.symm.trans htoken')
  exact hj (hown'.symm.trans hown)

/-- A second locker locks once the first one's two minutes are over. -/
theorem lock_returns_alone_expired :
    ∃ s : Sys, s.now = 120001 ∧ (∃ call, s.calls 0 = some call ∧ call.locker = 1 ∧
      call.phase.obtained) ∧ ∀ j ≠ 1, ¬ Holds s j := by
  let m := machine fun _ => 120000
  have h0 : m.ReachIf InTurn {} := .init ⟨fun _ => rfl, fun _ => rfl, fun _ => rfl⟩
  have h1 := h0.step (Action.lock 0 0) (fun c call hc => by cases hc) rfl
  have h2 := h1.step (Action.goOn 0) (fun call hc ho => by cases hc; exact absurd ho id) rfl
  have h3 := h2.step (Action.run 0) trivial rfl
  have h4 := h3.step (Action.goOn 0) (fun call hc ho => by cases hc; cases ho) rfl
  have h5 := h4.step (Action.run 0) trivial rfl
  have h6 := h5.step (Action.goOn 0) (fun call hc ho => by
    cases hc
    exact ⟨120000, rfl, by decide⟩) rfl
  have h7 := h6.step (Action.tick 120001) trivial rfl
  have h8 := h7.step (Action.lock 0 1) (fun c call hc => by
    rcases c with _ | c <;> cases hc) rfl
  have h9 := h8.step (Action.goOn 0) (fun call hc ho => by cases hc; exact absurd ho id) rfl
  have h10 := h9.step (Action.run 0) trivial rfl
  have ho : (Phase.updated 240001 1).obtained := rfl
  refine ⟨_, rfl, ⟨{ locker := 1, phase := .updated 240001 1 }, rfl, rfl, ho⟩,
    @lock_returns_alone _ _ 0 { locker := 1, phase := .updated 240001 1 } h10 rfl ho ?_⟩
  intro call hc _
  cases hc
  exact ⟨240001, rfl, by decide⟩

/-- A locker whose lease is over calls `unlock()` and, before that has resolved, `lock()`: the
operation of `unlock()` has the new token and runs when `lock()` has returned. Then another locker
locks. -/
def relocked : List Action := [.lock 0 0, .goOn 0, .run 0, .goOn 0, .run 0, .goOn 0, .tick 101,
  .unlock 1 0, .lock 2 0, .goOn 1, .goOn 2, .run 2, .goOn 2, .run 1, .lock 3 1, .goOn 3, .run 3]

/-- A locker calls `lock()` only when it does not hold the lock. -/
def NotHeld (s : Sys) : Action → Prop
  | .lock _ i => ¬ Holds s i
  | _ => True

instance (s : Sys) (i : ℕ) : Decidable (Holds s i) :=
  inferInstanceAs (Decidable ((s.lockers i).locked = true ∧
    ∃ t ∈ (s.lockers i).lastWritten, s.now ≤ t))

instance (s : Sys) : ∀ a, Decidable (NotHeld s a)
  | .lock _ i => inferInstanceAs (Decidable (¬ Holds s i))
  | .tick _ | .unlock _ _ | .fire _ _ | .goOn _ | .run _ => inferInstanceAs (Decidable True)

theorem lock_returns_fails :
    ¬ ∀ (viewLockTtl : ℕ → ℤ) (s : Sys) (c : ℕ) (call : Call),
      (machine viewLockTtl).ReachIf NotHeld s → s.calls c = some call → call.phase.obtained →
      ∀ j ≠ call.locker, ¬ Holds s j := by
  intro hall
  obtain ⟨s, hs, hc, hh⟩ : ∃ s, (machine fun _ => 100).run {} relocked = some s ∧
      s.calls 3 = some { locker := 1, phase := .updated 201 1 } ∧ Holds s 0 :=
    ⟨_, rfl, rfl, by decide⟩
  have h0 : (machine fun _ => 100).ReachIf NotHeld {} :=
    .init ⟨fun _ => rfl, fun _ => rfl, fun _ => rfl⟩
  exact hall _ s 3 _ (h0.run (by decide) hs) hc rfl 0 (by decide) hh

end MongoViewLocker

end NodeCqrs
