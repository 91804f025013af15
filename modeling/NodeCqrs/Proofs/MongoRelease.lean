import NodeCqrs.Proofs.MongoViewLocker
import NodeCqrs.Proofs.Timers

/-!
# The release of `MongoViewLocker`

`unlock()` cancels the timer it knows and clears the token when it ends. A `prolongLock()` that is
under way then arms a timer again, and what that sends later has no token and finds any released
document (`release_final_fails`). Where no `prolongLock()` does so (`Clean`), a locker whose
`unlock()` has resolved writes nothing until it calls `lock()` again (`release_final`).
-/

namespace NodeCqrs

namespace MongoViewLocker

open Machine (ReachIf)

/-- The token in the document. -/
def docToken (doc : Option ViewLockDocument) : Option LockToken := doc.bind (·.token)

/-- The call is one of `lock()` or `unlock()`. -/
def Phase.busy (phase : Phase) : Prop := phase.locking ∨ phase.unlocking

/-- No `lock()` or `unlock()` call of the locker is under way. -/
def Idle (s : Sys) (i : ℕ) : Prop :=
  ∀ c call, s.calls c = some call → call.locker = i → ¬ call.phase.busy

/-- `lock()` and `unlock()` are called when the locker is idle. -/
def Apart (s : Sys) : Action → Prop
  | .lock _ i | .unlock _ i => Idle s i
  | _ => True

/-- `lock()` and `unlock()` are called when the locker is idle, and `unlock()` when no timer of it is
armed but the one it knows; no `prolongLock()` sends its operation without a token, or arms a timer
when `unlock()` is the last call. -/
def Clean (s : Sys) : Action → Prop
  | .lock _ i => Idle s i
  | .unlock _ i => Idle s i ∧ ∀ h timer, s.timers.armed h = some timer → timer.owner = i →
      (s.lockers i).lockProlongationTimeout = some h
  | .goOn c => ∀ call, s.calls c = some call →
      (call.phase = .prolongLock → (s.lockers call.locker).lockToken ≠ none) ∧
      (call.phase = .prolonged true → (s.lockers call.locker).unlocked = false)
  | _ => True

variable {viewLockTtl : ℕ → ℤ} {s s' : Sys} {c i : ℕ} {call : Call} {a : Action}

/-! ## Tokens have one owner -/

/-- A locker's token is its own, and so is that of each operation it has sent. -/
structure Tokens (s : Sys) : Prop where
  own : ∀ i token, (s.lockers i).lockToken = some token → token.locker = i
  sent : ∀ c call token, s.calls c = some call → call.phase.token = some (some token) →
    token.locker = call.locker

theorem Tokens.setCall (h : Tokens s) (c : ℕ) {x : Option Call}
    (hx : ∀ call ∈ x, ∀ token, call.phase.token = some (some token) → token.locker = call.locker) :
    Tokens (s.setCall c x) := by
  refine ⟨h.own, fun c' call' token hc ht => ?_⟩
  rw [calls_setCall] at hc
  split_ifs at hc
  · exact hx call' hc token ht
  · exact h.sent c' call' token hc ht

theorem Tokens.setLocker (h : Tokens s) (i : ℕ) {l : Locker}
    (hl : ∀ token, l.lockToken = some token → token.locker = i) : Tokens (s.setLocker i l) := by
  refine ⟨fun j token ht => ?_, h.sent⟩
  rw [lockers_setLocker] at ht
  split_ifs at ht with hj
  · exact hj ▸ hl token ht
  · exact h.own j token ht

theorem Tokens.wrote (h : Tokens s) (i : ℕ) (lockedTill : ℤ) : Tokens (s.wrote i lockedTill) :=
  h.setLocker i (h.own i)

theorem Tokens.schedule (h : Tokens s) (i : ℕ) :
    Tokens (scheduleLockProlongation viewLockTtl s i) := by
  have harmed : ∀ timers : Timers, Tokens { s with timers } := fun _ => ⟨h.own, h.sent⟩
  exact (harmed _).setLocker i (h.own i)

theorem tokens_goOn (h : Tokens s) (hst : goOn viewLockTtl s c call = some s') : Tokens s' := by
  -- an operation is sent with the locker's token
  have hsend : ∀ phase : Phase, (phase.token = none ∨
      phase.token = some (s.lockers call.locker).lockToken) →
      Tokens (s.setCall c (some { call with phase })) := by
    refine fun phase hp => h.setCall c fun call' hc token ht => ?_
    obtain rfl := Option.some.inj hc
    rcases hp with hp | hp
    · simp [hp] at ht
    · exact h.own _ token (Option.some.inj (hp.symm.trans ht))
  have hend : Tokens (s.setCall c none) := h.setCall c (by simp)
  have hreturn : Tokens (lockReturns viewLockTtl s c call.locker) :=
    (hend.schedule call.locker).setLocker call.locker ((hend.schedule call.locker).own _)
  unfold goOn at hst
  simp only [] at hst
  split at hst
  · exact Option.some.inj hst ▸ hsend _ (.inr rfl)
  · split_ifs at hst <;> obtain rfl := Option.some.inj hst
    · exact hreturn
    · exact hsend _ (.inr rfl)
  · split_ifs at hst <;> obtain rfl := Option.some.inj hst
    · exact hreturn
    · exact hsend _ (.inl rfl)
  · split_ifs at hst
    exact Option.some.inj hst ▸ hsend _ (.inr rfl)
  · exact Option.some.inj hst ▸ hsend _ (.inr rfl)
  · split_ifs at hst <;> obtain rfl := Option.some.inj hst
    · exact hend.schedule _
    · exact hend
  · exact Option.some.inj hst ▸ hsend _ (.inr rfl)
  · exact Option.some.inj hst ▸ hend.setLocker _ (by simp)
  · cases hst

theorem tokens_run (h : Tokens s) (hst : run s c call = some s') : Tokens s' := by
  have hanswer : ∀ (s₁ : Sys) (doc : Option ViewLockDocument) (phase : Phase), Tokens s₁ →
      phase.token = none → Tokens ({ s₁ with doc }.setCall c (some { call with phase })) := by
    intro s₁ doc phase h₁ hp
    have hdoc : Tokens { s₁ with doc } := ⟨h₁.own, h₁.sent⟩
    refine hdoc.setCall c fun call' hc token ht => ?_
    obtain rfl := Option.some.inj hc
    simp [hp] at ht
  unfold run at hst
  split at hst
  · obtain rfl := Option.some.inj hst
    refine hanswer _ _ _ ?_ rfl
    split_ifs
    · exact h.wrote _ _
    · exact h
  · obtain rfl := Option.some.inj hst
    refine hanswer _ _ _ ?_ rfl
    split_ifs
    · exact h.wrote _ _
    · exact h
  · obtain rfl := Option.some.inj hst
    refine hanswer _ _ _ ?_ rfl
    split_ifs
    · exact h.wrote _ _
    · exact h
  · obtain rfl := Option.some.inj hst
    exact hanswer _ _ _ h rfl
  · cases hst

theorem tokens_step (h : Tokens s) (hst : step viewLockTtl s a = some s') : Tokens s' := by
  have hstart : ∀ (s₁ : Sys) (c i : ℕ) (phase : Phase), Tokens s₁ → phase.token = none →
      Tokens (s₁.setCall c (some { locker := i, phase })) := by
    refine fun s₁ c i phase h₁ hp => h₁.setCall c fun call' hc token ht => ?_
    obtain rfl := Option.some.inj hc
    simp [hp] at ht
  unfold step at hst
  cases a with
  | tick ms => exact Option.some.inj hst ▸ ⟨h.own, h.sent⟩
  | lock c i =>
    simp only [] at hst
    split at hst
    · cases hst
    · refine Option.some.inj hst ▸ hstart _ c i _ (h.setLocker i fun token ht => ?_) rfl
      rw [← Option.some.inj ht]
  | unlock c i =>
    simp only [] at hst
    split at hst
    · cases hst
    · have hcancel : Tokens (cancelLockProlongation s i) := ⟨h.own, h.sent⟩
      exact Option.some.inj hst ▸ hstart _ c i _ (hcancel.setLocker i (h.own i)) rfl
  | fire c handle =>
    simp only [] at hst
    split at hst
    · split_ifs at hst
      exact Option.some.inj hst ▸ hstart _ c _ _ ⟨h.own, h.sent⟩ rfl
    · cases hst
  | goOn c =>
    obtain ⟨call, -, hst⟩ := Option.bind_eq_some_iff.1 hst
    exact tokens_goOn h hst
  | run c =>
    obtain ⟨call, -, hst⟩ := Option.bind_eq_some_iff.1 hst
    exact tokens_run h hst

theorem tokens_init (h : Init s) : Tokens s := by
  obtain ⟨hlockers, hcalls, -⟩ := h
  exact ⟨by simp [hlockers], by simp [hcalls]⟩

/-- Tokens have one owner in every reachable state. -/
theorem tokens {C : Sys → Action → Prop} (h : (machine viewLockTtl).ReachIf C s) : Tokens s :=
  ReachIf.invariant (P := Tokens) (fun _ => tokens_init) (fun _ _ _ ht _ hst => tokens_step ht hst) h

/-! ## What the operations do to the token -/

theorem docToken_updateOne (now lockedTill : ℤ) (token : Option LockToken)
    (doc : Option ViewLockDocument) : docToken (updateOne now lockedTill token doc).1 =
      if (updateOne now lockedTill token doc).2 = 1 then token else docToken doc := by
  rcases hop : updateOne now lockedTill token doc with ⟨doc', n⟩
  have hspec := updateOne_spec hop
  split_ifs at hspec with hn
  · obtain ⟨d, -, -, rfl⟩ := hspec
    rw [if_pos hn]
    rfl
  · rw [if_neg hn, hspec]

theorem docToken_insertOne (lockedTill : ℤ) (token : Option LockToken)
    (doc : Option ViewLockDocument) : docToken (insertOne lockedTill token doc).1 =
      if (insertOne lockedTill token doc).2 then token else docToken doc := by
  rcases hop : insertOne lockedTill token doc with ⟨doc', ok⟩
  have hspec := insertOne_spec hop
  split_ifs at hspec with hok
  · obtain ⟨-, rfl⟩ := hspec
    rw [if_pos hok]
    rfl
  · rw [if_neg hok, hspec]

theorem docToken_prolong (lockedTill : ℤ) (token : Option LockToken)
    (doc : Option ViewLockDocument) :
    docToken (prolong lockedTill token doc).1 = docToken doc := by
  rcases hop : prolong lockedTill token doc with ⟨doc', found⟩
  have hspec := prolong_spec hop
  split_ifs at hspec
  · obtain ⟨d, rfl, -, rfl⟩ := hspec
    rfl
  · rw [hspec]

theorem docToken_of_prolong {lockedTill : ℤ} {token : Option LockToken}
    {doc : Option ViewLockDocument} (h : (prolong lockedTill token doc).2) :
    docToken doc = token := by
  rcases hop : prolong lockedTill token doc with ⟨doc', found⟩
  have hspec := prolong_spec hop
  rw [hop] at h
  rw [if_pos h] at hspec
  obtain ⟨d, rfl, htoken, -⟩ := hspec
  exact htoken

theorem docToken_release (token : Option LockToken) (doc : Option ViewLockDocument) :
    docToken (release token doc).1 = if docToken doc = token then none else docToken doc := by
  rcases doc with _ | d
  · show (none : Option LockToken) = if none = token then none else none
    rw [ite_self]
  · unfold release
    by_cases hd : d.token = token <;> simp [docToken, hd]

/-! ## The steps of other lockers -/

/-- Whose step it is. -/
def actor (s : Sys) : Action → Option ℕ
  | .tick _ => none
  | .lock _ i | .unlock _ i => some i
  | .fire _ handle => (s.timers.armed handle).map (·.owner)
  | .goOn c | .run c => (s.calls c).map (·.locker)

/-- To the locker nothing is new but the time, the fields of the document that are not its token, and
timers of it that are gone. -/
structure Same (s s' : Sys) (i : ℕ) : Prop where
  locker : s'.lockers i = s.lockers i
  calls : ∀ c call, call.locker = i → (s'.calls c = some call ↔ s.calls c = some call)
  timers : ∀ h timer, timer.owner = i → s'.timers.armed h = some timer →
    s.timers.armed h = some timer
  token : ∀ token, token.locker = i → docToken s'.doc = some token → docToken s.doc = some token

theorem Same.refl (s : Sys) (i : ℕ) : Same s s i :=
  ⟨rfl, fun _ _ _ => Iff.rfl, fun _ _ _ h => h, fun _ _ h => h⟩

theorem Same.trans {s'' : Sys} (h : Same s s' i) (h' : Same s' s'' i) : Same s s'' i :=
  ⟨h'.locker.trans h.locker, fun c call hi => (h'.calls c call hi).trans (h.calls c call hi),
    fun handle timer hi ht => h.timers handle timer hi (h'.timers handle timer hi ht),
    fun token hi ht => h.token token hi (h'.token token hi ht)⟩

theorem same_setCall {x : Option Call} (hc : ∀ call ∈ s.calls c, call.locker ≠ i)
    (hx : ∀ call ∈ x, call.locker ≠ i) : Same s (s.setCall c x) i := by
  refine ⟨rfl, fun c' call hi => ?_, fun _ _ _ h => h, fun _ _ h => h⟩
  rw [calls_setCall]
  split_ifs with hcc
  · subst hcc
    exact ⟨fun h => absurd hi (hx call h), fun h => absurd hi (hc call h)⟩
  · rfl

theorem same_setLocker {j : ℕ} (hj : j ≠ i) (l : Locker) : Same s (s.setLocker j l) i := by
  refine ⟨?_, fun _ _ _ => Iff.rfl, fun _ _ _ h => h, fun _ _ h => h⟩
  rw [lockers_setLocker, if_neg hj.symm]

theorem same_wrote {j : ℕ} (hj : j ≠ i) (lockedTill : ℤ) : Same s (s.wrote j lockedTill) i :=
  same_setLocker hj _

theorem same_doc {doc : Option ViewLockDocument}
    (h : ∀ token, token.locker = i → docToken doc = some token → docToken s.doc = some token) :
    Same s { s with doc } i := ⟨rfl, fun _ _ _ => Iff.rfl, fun _ _ _ h => h, h⟩

theorem same_timers {timers : Timers}
    (h : ∀ h timer, timer.owner = i → timers.armed h = some timer → s.timers.armed h = some timer) :
    Same s { s with timers } i := ⟨rfl, fun _ _ _ => Iff.rfl, h, fun _ _ h => h⟩

theorem same_schedule {j : ℕ} (hj : j ≠ i) : Same s (scheduleLockProlongation viewLockTtl s j) i := by
  refine (same_timers fun h timer hi ht => ?_).trans (same_setLocker hj _)
  rcases Timers.armed_setTimeout.1 ht with ⟨-, rfl⟩ | ⟨-, ht⟩
  · exact absurd hi hj
  · exact ht

theorem same_goOn (hc : s.calls c = some call) (hi : call.locker ≠ i)
    (hst : goOn viewLockTtl s c call = some s') : Same s s' i := by
  have hmove : ∀ phase, Same s (s.setCall c (some { call with phase })) i := fun phase =>
    same_setCall (by simpa [hc] using hi) (by simpa using hi)
  have hend : Same s (s.setCall c none) i := same_setCall (by simpa [hc] using hi) (by simp)
  have hreturn : Same s (lockReturns viewLockTtl s c call.locker) i :=
    (hend.trans (same_schedule hi)).trans (same_setLocker hi _)
  unfold goOn at hst
  simp only [] at hst
  split at hst
  · exact Option.some.inj hst ▸ hmove _
  · split_ifs at hst <;> obtain rfl := Option.some.inj hst
    · exact hreturn
    · exact hmove _
  · split_ifs at hst <;> obtain rfl := Option.some.inj hst
    · exact hreturn
    · exact hmove _
  · split_ifs at hst
    exact Option.some.inj hst ▸ hmove _
  · exact Option.some.inj hst ▸ hmove _
  · split_ifs at hst <;> obtain rfl := Option.some.inj hst
    · exact hend.trans (same_schedule hi)
    · exact hend
  · exact Option.some.inj hst ▸ hmove _
  · exact Option.some.inj hst ▸ hend.trans (same_setLocker hi _)
  · cases hst

theorem same_run (ht : Tokens s) (hc : s.calls c = some call) (hi : call.locker ≠ i)
    (hst : run s c call = some s') : Same s s' i := by
  -- what the operation leaves in the document is a token of the call's locker or none of anybody
  have hanswer : ∀ (s₁ : Sys) (doc : Option ViewLockDocument) (phase : Phase), Same s s₁ i →
      (∀ token, token.locker = i → docToken doc = some token → docToken s₁.doc = some token) →
      Same s ({ s₁ with doc }.setCall c (some { call with phase })) i := by
    intro s₁ doc phase h₁ hdoc
    refine (h₁.trans (same_doc hdoc)).trans (same_setCall (fun call' hc' hi' => ?_) (by simpa using hi))
    obtain rfl : call = call' :=
      Option.some.inj (hc.symm.trans ((h₁.calls c call' hi').1 hc'))
    exact hi hi'
  have hwrote : ∀ lockedTill (p : Prop) [Decidable p],
      Same s (if p then s.wrote call.locker lockedTill else s) i := by
    intro lockedTill p _
    split_ifs
    · exact same_wrote hi lockedTill
    · exact .refl s i
  have hdoc : ∀ lockedTill (p : Prop) [Decidable p],
      (if p then s.wrote call.locker lockedTill else s).doc = s.doc := by
    intro lockedTill p _
    split_ifs <;> rfl
  have hown : ∀ token t, call.phase.token = some token → token = some t → t.locker = i → False :=
    fun token t hp htok hl => hi ((ht.sent c call t hc (htok ▸ hp)).symm.trans hl)
  unfold run at hst
  split at hst
  · rename_i now lockedTill token hp
    have hd := docToken_updateOne now lockedTill token s.doc
    rcases hop : updateOne now lockedTill token s.doc with ⟨doc, n⟩
    simp only [hop, Option.some.injEq] at hst hd
    subst hst
    refine hanswer _ _ _ (hwrote _ _) fun t hl htok => ?_
    rw [hd] at htok
    split_ifs at htok
    · exact (hown token t (by rw [hp]; rfl) htok hl).elim
    · rw [hdoc, htok]
  · rename_i lockedTill token hp
    have hd := docToken_insertOne lockedTill token s.doc
    rcases hop : insertOne lockedTill token s.doc with ⟨doc, ok⟩
    simp only [hop, Option.some.injEq] at hst hd
    subst hst
    refine hanswer _ _ _ (hwrote _ _) fun t hl htok => ?_
    rw [hd] at htok
    split_ifs at htok
    · exact (hown token t (by rw [hp]; rfl) htok hl).elim
    · rw [hdoc, htok]
  · rename_i lockedTill token hp
    have hd := docToken_prolong lockedTill token s.doc
    rcases hop : prolong lockedTill token s.doc with ⟨doc, found⟩
    simp only [hop, Option.some.injEq] at hst hd
    subst hst
    exact hanswer _ _ _ (hwrote _ _) fun t _ htok => by rw [hdoc, ← hd, htok]
  · rename_i token hp
    have hd := docToken_release token s.doc
    rcases hop : release token s.doc with ⟨doc, found⟩
    simp only [hop, Option.some.injEq] at hst hd
    subst hst
    refine hanswer _ _ _ (.refl s i) fun t _ htok => ?_
    rw [hd] at htok
    split_ifs at htok
    exact htok
  · cases hst

theorem same_step (ht : Tokens s) (hi : actor s a ≠ some i) (hst : step viewLockTtl s a = some s') :
    Same s s' i := by
  unfold step at hst
  cases a with
  | tick ms => exact Option.some.inj hst ▸ ⟨rfl, fun _ _ _ => Iff.rfl, fun _ _ _ h => h, fun _ _ h => h⟩
  | lock c j =>
    have hj : j ≠ i := fun h => hi (congrArg some h)
    rcases hc : s.calls c with _ | call <;> simp only [hc, Option.some.injEq, reduceCtorEq] at hst
    exact hst ▸ (same_setLocker hj _).trans
      (same_setCall (by simp [Sys.setLocker, hc]) (by simpa using hj))
  | unlock c j =>
    have hj : j ≠ i := fun h => hi (congrArg some h)
    rcases hc : s.calls c with _ | call <;> simp only [hc, Option.some.injEq, reduceCtorEq] at hst
    have hcancel : Same s (cancelLockProlongation s j) i :=
      same_timers fun h timer _ ht => (Timers.armed_clearTimeout.1 ht).2
    exact hst ▸ (hcancel.trans (same_setLocker hj _)).trans
      (same_setCall (by simp [Sys.setLocker, cancelLockProlongation, hc]) (by simpa using hj))
  | fire c handle =>
    simp only [] at hst
    split at hst
    · rename_i timer hc htimer
      split_ifs at hst
      have hj : timer.owner ≠ i := fun h => hi (by simp [actor, htimer, h])
      have hclear : Same s { s with timers := s.timers.clear handle } i :=
        same_timers fun h timer _ ht => (Timers.armed_clear.1 ht).2
      exact Option.some.inj hst ▸ hclear.trans (same_setCall (by simp [hc]) (by simpa using hj))
    · cases hst
  | goOn c =>
    obtain ⟨call, hc, hst⟩ := Option.bind_eq_some_iff.1 hst
    exact same_goOn hc (fun h => hi (by simp [actor, hc, h])) hst
  | run c =>
    obtain ⟨call, hc, hst⟩ := Option.bind_eq_some_iff.1 hst
    exact same_run ht hc (fun h => hi (by simp [actor, hc, h])) hst

/-! ## A locker that has released its lock -/

/-- The call is one of `lock()` that has not got the lock yet. -/
def Phase.waiting (phase : Phase) : Prop := phase.locking ∧ ¬ phase.obtained

def Waiting (s : Sys) (i : ℕ) : Prop :=
  ∃ c call, s.calls c = some call ∧ call.locker = i ∧ call.phase.waiting

/-- What holds of a locker all along: its calls of `lock()` and `unlock()` come one at a time and have
its token, and a `prolongLock()` whose operation finds the document has the token too, unless
`lock()` has made a new one. -/
structure Quiet (s : Sys) (i : ℕ) : Prop where
  engaged : ∀ c call, s.calls c = some call → call.locker = i →
    (call.phase.locking → (s.lockers i).unlocked = false) ∧
    (call.phase.unlocking → (s.lockers i).unlocked = true ∧ (s.lockers i).released = false)
  one : ∀ c c' call call', s.calls c = some call → s.calls c' = some call' → call.locker = i →
    call'.locker = i → call.phase.busy → call'.phase.busy → c = c'
  timers : (s.lockers i).unlocked = true → ∀ h timer, s.timers.armed h = some timer →
    timer.owner ≠ i
  token : ∀ c call token, s.calls c = some call → call.locker = i → call.phase.busy →
    call.phase.token = some token → token = (s.lockers i).lockToken
  prolongs : ∀ c call lockedTill token, s.calls c = some call → call.locker = i →
    call.phase = .prolong lockedTill token → token ≠ none ∧
      (docToken s.doc = token → (s.lockers i).lockToken = token ∨ Waiting s i)
  done : ∀ c call, s.calls c = some call → call.locker = i → call.phase = .released →
    ∀ t, (s.lockers i).lockToken = some t → docToken s.doc ≠ some t
  released : (s.lockers i).released = true →
    (s.lockers i).unlocked = true ∧ (s.lockers i).lockToken = none

theorem Quiet.idle (h : Quiet s i) (hr : (s.lockers i).released = true) : Idle s i := by
  obtain ⟨hu, -⟩ := h.released hr
  rintro c call hc hi (hl | hl)
  · exact absurd hu (by simp [(h.engaged c call hc hi).1 hl])
  · exact absurd hr (by simp [((h.engaged c call hc hi).2 hl).2])

/-- Once it is released, no operation of it finds the document. -/
theorem Quiet.not_writes (h : Quiet s i) (hr : (s.lockers i).released = true) :
    ¬ Writes s i a := by
  intro hw
  rcases a with ms | ⟨c, j⟩ | ⟨c, j⟩ | ⟨c, handle⟩ | c | c <;> try exact hw
  obtain ⟨call, hc, hi, hw⟩ := hw
  have hidle := h.idle hr c call hc hi
  rcases hp : call.phase with _ | _ | _ | _ | _ | _ | _ | ⟨lockedTill, token⟩ | _ | _ | _ | _ <;>
    rw [hp] at hw hidle <;> try exact hw
  · exact hidle (.inl trivial)
  · exact hidle (.inl trivial)
  · obtain ⟨hne, hdoc⟩ := h.prolongs c call lockedTill token hc hi hp
    rcases hdoc (docToken_of_prolong hw) with hl | ⟨c', call', hc', hi', hp', -⟩
    · exact hne (hl.symm.trans (h.released hr).2)
    · exact h.idle hr c' call' hc' hi' (.inl hp')
  · exact hidle (.inr trivial)

theorem Quiet.same (h : Quiet s i) (ht : Tokens s) (hs : Same s s' i) : Quiet s' i := by
  have hwaiting : Waiting s i → Waiting s' i := by
    rintro ⟨c, call, hc, hi, hp⟩
    exact ⟨c, call, (hs.calls c call hi).2 hc, hi, hp⟩
  constructor
  · intro c call hc hi
    rw [hs.locker]
    exact h.engaged c call ((hs.calls c call hi).1 hc) hi
  · intro c c' call call' hc hc' hi hi'
    exact h.one c c' call call' ((hs.calls c call hi).1 hc) ((hs.calls c' call' hi').1 hc') hi hi'
  · intro hu handle timer harmed hi
    rw [hs.locker] at hu
    exact h.timers hu handle timer (hs.timers handle timer hi harmed) hi
  · intro c call token hc hi
    rw [hs.locker]
    exact h.token c call token ((hs.calls c call hi).1 hc) hi
  · intro c call lockedTill token hc hi hp
    rw [hs.locker]
    have hc₀ := (hs.calls c call hi).1 hc
    obtain ⟨hne, hdoc⟩ := h.prolongs c call lockedTill token hc₀ hi hp
    refine ⟨hne, fun hd => ?_⟩
    obtain ⟨t, rfl⟩ := Option.ne_none_iff_exists'.1 hne
    have htl : t.locker = i := (ht.sent c call t hc₀ (by rw [hp]; rfl)).trans hi
    exact (hdoc (hs.token t htl hd)).imp id hwaiting
  · intro c call hc hi hp t
    rw [hs.locker]
    intro hl hd
    exact h.done c call ((hs.calls c call hi).1 hc) hi hp t hl (hs.token t (ht.own i t hl) hd)
  · rw [hs.locker]
    exact h.released

/-- A call of the locker goes on to a phase, or starts in it. -/
structure Fits (s : Sys) (c i : ℕ) (phase : Phase) : Prop where
  locking : phase.locking → (s.lockers i).unlocked = false
  unlocking : phase.unlocking →
    (s.lockers i).unlocked = true ∧ (s.lockers i).released = false
  one : phase.busy → ∀ c' call', s.calls c' = some call' → call'.locker = i →
    call'.phase.busy → c' = c
  token : ∀ token, phase.token = some token → token = (s.lockers i).lockToken
  prolong : ∀ lockedTill token, phase = .prolong lockedTill token → token ≠ none
  done : phase = .released → ∀ t, (s.lockers i).lockToken = some t → docToken s.doc ≠ some t

theorem Quiet.setCall (h : Quiet s i) {x : Option Call}
    (hx : ∀ call ∈ x, call.locker = i → Fits s c i call.phase)
    (hw : ∀ call ∈ s.calls c, call.locker = i → call.phase.waiting →
      (∃ call' ∈ x, call'.locker = i ∧ call'.phase.waiting) ∨
        docToken s.doc = (s.lockers i).lockToken) : Quiet (s.setCall c x) i := by
  have hback : ∀ c' call', (s.setCall c x).calls c' = some call' →
      c' = c ∧ x = some call' ∨ c' ≠ c ∧ s.calls c' = some call' := by
    intro c' call' hc
    rw [calls_setCall] at hc
    split_ifs at hc with hcc
    · exact .inl ⟨hcc, hc⟩
    · exact .inr ⟨hcc, hc⟩
  have hwaiting : Waiting s i →
      Waiting (s.setCall c x) i ∨ docToken s.doc = (s.lockers i).lockToken := by
    rintro ⟨c', call', hc, hi, hp⟩
    by_cases hcc : c' = c
    · subst hcc
      rcases hw call' hc hi hp with ⟨call, hx', hi', hp'⟩ | hd
      · exact .inl ⟨c', call, by rw [calls_setCall, if_pos rfl]; exact hx', hi', hp'⟩
      · exact .inr hd
    · exact .inl ⟨c', call', by rw [calls_setCall, if_neg hcc]; exact hc, hi, hp⟩
  constructor
  · intro c' call' hc hi
    rcases hback c' call' hc with ⟨-, hx'⟩ | ⟨-, hc⟩
    · exact ⟨(hx call' hx' hi).locking, (hx call' hx' hi).unlocking⟩
    · exact h.engaged c' call' hc hi
  · intro c₁ c₂ call₁ call₂ hc₁ hc₂ hi₁ hi₂ hb₁ hb₂
    rcases hback c₁ call₁ hc₁ with ⟨rfl, hx₁⟩ | ⟨-, hs₁⟩ <;>
      rcases hback c₂ call₂ hc₂ with ⟨rfl, hx₂⟩ | ⟨-, hs₂⟩
    · rfl
    · exact ((hx call₁ hx₁ hi₁).one hb₁ c₂ call₂ hs₂ hi₂ hb₂).symm
    · exact (hx call₂ hx₂ hi₂).one hb₂ c₁ call₁ hs₁ hi₁ hb₁
    · exact h.one c₁ c₂ call₁ call₂ hs₁ hs₂ hi₁ hi₂ hb₁ hb₂
  · exact h.timers
  · intro c' call' token hc hi hb ht
    rcases hback c' call' hc with ⟨-, hx'⟩ | ⟨-, hc⟩
    · exact (hx call' hx' hi).token token ht
    · exact h.token c' call' token hc hi hb ht
  · intro c' call' lockedTill token hc hi hp
    rcases hback c' call' hc with ⟨-, hx'⟩ | ⟨-, hc⟩
    · refine ⟨(hx call' hx' hi).prolong lockedTill token hp, fun _ => .inl ?_⟩
      exact ((hx call' hx' hi).token token (by rw [hp]; rfl)).symm
    · obtain ⟨hne, hdoc⟩ := h.prolongs c' call' lockedTill token hc hi hp
      refine ⟨hne, fun hd => ?_⟩
      rcases hdoc hd with hl | hwait
      · exact .inl hl
      · exact (hwaiting hwait).elim .inr fun hd' => .inl (hd'.symm.trans hd)
  · intro c' call' hc hi hp
    rcases hback c' call' hc with ⟨-, hx'⟩ | ⟨-, hc⟩
    · exact (hx call' hx' hi).done hp
    · exact h.done c' call' hc hi hp
  · exact h.released

theorem Quiet.end (h : Quiet s i) (hw : ∀ call ∈ s.calls c, ¬ call.phase.waiting) :
    Quiet (s.setCall c none) i :=
  h.setCall (by simp) fun call hc _ hp => absurd hp (hw call hc)

/-- The locker learns of its document, its timer or that it has the lock. -/
theorem Quiet.setLocker (h : Quiet s i) {l : Locker}
    (htoken : l.lockToken = (s.lockers i).lockToken) (hunlocked : l.unlocked = (s.lockers i).unlocked)
    (hreleased : l.released = (s.lockers i).released) : Quiet (s.setLocker i l) i := by
  have hl : (s.setLocker i l).lockers i = l := by rw [lockers_setLocker, if_pos rfl]
  constructor
  · rw [hl, hunlocked, hreleased]
    exact h.engaged
  · exact h.one
  · rw [hl, hunlocked]
    exact h.timers
  · rw [hl, htoken]
    exact h.token
  · rw [hl, htoken]
    exact h.prolongs
  · rw [hl, htoken]
    exact h.done
  · rw [hl, htoken, hunlocked, hreleased]
    exact h.released

theorem Quiet.schedule (h : Quiet s i) (hu : (s.lockers i).unlocked = false) :
    Quiet (scheduleLockProlongation viewLockTtl s i) i := by
  have harmed : ∀ timers : Timers, Quiet { s with timers } i := fun timers =>
    ⟨h.engaged, h.one, fun hu' => absurd hu' (by simp [hu]), h.token, h.prolongs, h.done, h.released⟩
  exact (harmed _).setLocker rfl rfl rfl

/-- The document has the token of the locker now. -/
theorem Quiet.claimed (h : Quiet s i) {doc : Option ViewLockDocument}
    (hd : docToken doc = (s.lockers i).lockToken)
    (hr : ∀ c call, s.calls c = some call → call.locker = i → call.phase ≠ .released) :
    Quiet { s with doc } i :=
  ⟨h.engaged, h.one, h.timers, h.token,
    fun c call lockedTill token hc hi hp => ⟨(h.prolongs c call lockedTill token hc hi hp).1,
      fun hd' => .inl (hd.symm.trans hd')⟩,
    fun c call hc hi hp => absurd hp (hr c call hc hi), h.released⟩

/-- A write that has come through: the document has the locker's token. -/
theorem Quiet.wrote (h : Quiet s i) (lockedTill : ℤ) {doc : Option ViewLockDocument}
    (hd : docToken doc = (s.lockers i).lockToken)
    (hr : ∀ c call, s.calls c = some call → call.locker = i → call.phase ≠ .released) :
    Quiet { s.wrote i lockedTill with doc } i
      ∧ docToken doc = ((s.wrote i lockedTill).lockers i).lockToken := by
  have hwrote : Quiet (s.wrote i lockedTill) i := h.setLocker rfl rfl rfl
  have htoken : docToken doc = ((s.wrote i lockedTill).lockers i).lockToken := by
    rw [hd, Sys.wrote, lockers_setLocker, if_pos rfl]
  exact ⟨hwrote.claimed htoken hr, htoken⟩

/-- The document has the token it had, or none. -/
theorem Quiet.kept (h : Quiet s i) {doc : Option ViewLockDocument}
    (hd : ∀ t, docToken doc = some t → docToken s.doc = some t) : Quiet { s with doc } i := by
  refine ⟨h.engaged, h.one, h.timers, h.token, fun c call lockedTill token hc hi hp => ?_,
    fun c call hc hi hp t hl hd' => h.done c call hc hi hp t hl (hd t hd'), h.released⟩
  obtain ⟨hne, hdoc⟩ := h.prolongs c call lockedTill token hc hi hp
  refine ⟨hne, fun hd' => ?_⟩
  obtain ⟨t, rfl⟩ := Option.ne_none_iff_exists'.1 hne
  exact hdoc (hd t hd')

/-! ## The locker's own steps -/

theorem Phase.not_unlocking {phase : Phase} (h : phase.locking) : ¬ phase.unlocking := by
  cases phase <;> simp_all [Phase.locking, Phase.unlocking]

/-- A call of `lock()` goes on. -/
theorem Quiet.fits_locking (h : Quiet s call.locker) (hc : s.calls c = some call)
    (hp : call.phase.locking) {phase : Phase} (hl : phase.locking)
    (ht : ∀ token, phase.token = some token → token = (s.lockers call.locker).lockToken) :
    Fits s c call.locker phase where
  locking _ := (h.engaged c call hc rfl).1 hp
  unlocking hu := absurd hu (Phase.not_unlocking hl)
  one _ c' call' hc' hi' hb' := h.one c' c call' call hc' hc hi' rfl hb' (.inl hp)
  token := ht
  prolong := by
    rintro lockedTill token rfl
    exact absurd hl id
  done := by
    rintro rfl
    exact absurd hl id

/-- A call of `unlock()` goes on. -/
theorem Quiet.fits_unlocking (h : Quiet s call.locker) (hc : s.calls c = some call)
    (hp : call.phase.unlocking) {phase : Phase} (hu : phase.unlocking)
    (ht : ∀ token, phase.token = some token → token = (s.lockers call.locker).lockToken)
    (hd : phase = .released → ∀ t, (s.lockers call.locker).lockToken = some t →
      docToken s.doc ≠ some t) : Fits s c call.locker phase where
  locking hl := absurd hu (Phase.not_unlocking hl)
  unlocking _ := (h.engaged c call hc rfl).2 hp
  one _ c' call' hc' hi' hb' := h.one c' c call' call hc' hc hi' rfl hb' (.inr hp)
  token := ht
  prolong := by
    rintro lockedTill token rfl
    exact absurd hu id
  done := hd

/-- `unlock()` resolves. -/
theorem Quiet.resolved (h : Quiet s call.locker) (hc : s.calls c = some call)
    (hp : call.phase = .released) {l : Locker} (htoken : l.lockToken = none)
    (hunlocked : l.unlocked = (s.lockers call.locker).unlocked) :
    Quiet ((s.setCall c none).setLocker call.locker l) call.locker := by
  have hu : (s.lockers call.locker).unlocked = true :=
    ((h.engaged c call hc rfl).2 (by rw [hp]; trivial)).1
  -- it was the only one
  have hidle : Idle (s.setCall c none) call.locker := by
    intro c' call' hc' hi' hb'
    rw [calls_setCall] at hc'
    split_ifs at hc' with hcc
    exact hcc (h.one c' c call' call hc' hc hi' rfl hb' (.inr (by rw [hp]; trivial)))
  have hend : Quiet (s.setCall c none) call.locker := h.end fun call' hc' hw => by
    obtain rfl := Option.some.inj (hc.symm.trans hc')
    rw [hp] at hw
    exact hw.1
  have hl : ((s.setCall c none).setLocker call.locker l).lockers call.locker = l := by
    rw [lockers_setLocker, if_pos rfl]
  constructor
  · intro c' call' hc' hi'
    exact ⟨fun hl => absurd (.inl hl) (hidle c' call' hc' hi'),
      fun hu => absurd (.inr hu) (hidle c' call' hc' hi')⟩
  · exact hend.one
  · rw [hl, hunlocked]
    exact hend.timers
  · exact fun c' call' token hc' hi' hb' => absurd hb' (hidle c' call' hc' hi')
  · intro c' call' lockedTill token hc' hi' hp'
    obtain ⟨hne, hdoc⟩ := hend.prolongs c' call' lockedTill token hc' hi' hp'
    refine ⟨hne, fun hd => absurd (hdoc hd) ?_⟩
    rintro (hlt | ⟨c'', call'', hc'', hi'', hp'', -⟩)
    · obtain ⟨t, rfl⟩ := Option.ne_none_iff_exists'.1 hne
      exact h.done c call hc rfl hp t hlt hd
    · exact hidle c'' call'' hc'' hi'' (.inl hp'')
  · exact fun c' call' hc' hi' hp' => absurd (.inr (by rw [hp']; trivial)) (hidle c' call' hc' hi')
  · rw [hl]
    exact fun _ => ⟨hunlocked.trans hu, htoken⟩

theorem Quiet.lockReturns (h : Quiet s call.locker) (hc : s.calls c = some call)
    (ho : call.phase.obtained) : Quiet (lockReturns viewLockTtl s c call.locker) call.locker := by
  have hl : call.phase.locking := by
    rcases hp : call.phase <;> simp_all [Phase.obtained, Phase.locking]
  have hend : Quiet (s.setCall c none) call.locker := h.end fun call' hc' hw => by
    obtain rfl := Option.some.inj (hc.symm.trans hc')
    exact hw.2 ho
  exact (hend.schedule ((h.engaged c call hc rfl).1 hl)).setLocker rfl rfl rfl

theorem quiet_goOn (h : Quiet s call.locker) (hc : s.calls c = some call)
    (hclean : Clean s (.goOn c)) (hst : goOn viewLockTtl s c call = some s') :
    Quiet s' call.locker := by
  have hmove : ∀ phase : Phase, Fits s c call.locker phase →
      (call.phase.waiting → phase.waiting) →
      Quiet (s.setCall c (some { call with phase })) call.locker := by
    intro phase hf hw
    refine h.setCall (fun call' hx _ => ?_) fun call' hc' _ hp => .inl ?_
    · obtain rfl := Option.some.inj hx
      exact hf
    · obtain rfl := Option.some.inj (hc.symm.trans hc')
      exact ⟨_, rfl, rfl, hw hp⟩
  have hlock : call.phase.locking → ∀ phase : Phase, phase.locking → ¬ phase.obtained →
      (∀ token, phase.token = some token → token = (s.lockers call.locker).lockToken) →
      Quiet (s.setCall c (some { call with phase })) call.locker :=
    fun hl phase hp ho ht => hmove phase (h.fits_locking hc hl hp ht) fun _ => ⟨hp, ho⟩
  have hsent : ∀ token, (s.lockers call.locker).lockToken = token →
      token = (s.lockers call.locker).lockToken := fun _ => Eq.symm
  unfold goOn at hst
  simp only [] at hst
  split at hst
  · rename_i hp
    exact Option.some.inj hst ▸ hlock (by rw [hp]; trivial) _ trivial id
      fun token ht => hsent token (Option.some.inj ht)
  · rename_i lockedTill n hp
    split_ifs at hst with hn <;> obtain rfl := Option.some.inj hst
    · exact h.lockReturns hc (by rw [hp]; exact hn)
    · exact hlock (by rw [hp]; trivial) _ trivial id
        fun token ht => hsent token (Option.some.inj ht)
  · rename_i ok hp
    split_ifs at hst with hok <;> obtain rfl := Option.some.inj hst
    · exact h.lockReturns hc (by rw [hp]; exact hok)
    · exact hlock (by rw [hp]; trivial) _ trivial id fun token ht => by cases ht
  · rename_i till hp
    split_ifs at hst
    exact Option.some.inj hst ▸ hlock (by rw [hp]; trivial) _ trivial id
      fun token ht => hsent token (Option.some.inj ht)
  · rename_i hp
    have hne := (hclean call hc).1 hp
    refine Option.some.inj hst ▸ hmove _ ⟨fun hl => absurd hl id, fun hu => absurd hu id,
      fun hb => (hb.elim id id).elim, fun token ht => hsent token (Option.some.inj ht),
      fun lockedTill token hp' => ?_, fun hp' => by cases hp'⟩ fun hw => ?_
    · exact (Phase.prolong.inj hp').2 ▸ hne
    · rw [hp] at hw
      exact absurd hw.1 id
  · rename_i found hp
    have hend : Quiet (s.setCall c none) call.locker := h.end fun call' hc' hw => by
      obtain rfl := Option.some.inj (hc.symm.trans hc')
      rw [hp] at hw
      exact hw.1
    split_ifs at hst with hfound <;> obtain rfl := Option.some.inj hst
    · exact hend.schedule ((hclean call hc).2 (by rw [hp, hfound]))
    · exact hend
  · rename_i hp
    refine Option.some.inj hst ▸ hmove _ (h.fits_unlocking hc (by rw [hp]; trivial) trivial
      (fun token ht => hsent token (Option.some.inj ht)) fun hp' => by cases hp') fun hw => ?_
    rw [hp] at hw
    exact absurd hw.1 id
  · rename_i hp
    obtain rfl := Option.some.inj hst
    exact h.resolved hc hp rfl rfl
  · cases hst

/-- The answer to an operation is no news to the other calls. -/
theorem Quiet.answered (h : Quiet s call.locker) (hc : s.calls c = some call) {phase : Phase}
    (htoken : phase.token = none) (hlocking : phase.locking → call.phase.locking)
    (hunlocking : phase.unlocking → call.phase.unlocking)
    (hdone : phase = .released → ∀ t, (s.lockers call.locker).lockToken = some t →
      docToken s.doc ≠ some t)
    (hw : call.phase.waiting → phase.waiting ∨ docToken s.doc = (s.lockers call.locker).lockToken) :
    Quiet (s.setCall c (some { call with phase })) call.locker := by
  refine h.setCall (fun call' hx _ => ?_) fun call' hc' _ hp => ?_
  · obtain rfl := Option.some.inj hx
    exact {
      locking := fun hl => (h.engaged c call hc rfl).1 (hlocking hl)
      unlocking := fun hu => (h.engaged c call hc rfl).2 (hunlocking hu)
      one := fun hb c₁ call₁ h₁ hi₁ hb₁ =>
        h.one c₁ c call₁ call h₁ hc hi₁ rfl hb₁ (hb.imp hlocking hunlocking)
      token := fun token ht => by simp [htoken] at ht
      prolong := by
        rintro lockedTill token hp
        simp only [] at hp
        simp [hp, Phase.token] at htoken
      done := hdone }
  · obtain rfl := Option.some.inj (hc.symm.trans hc')
    exact (hw hp).imp (fun hw => ⟨_, rfl, rfl, hw⟩) id

theorem quiet_run (h : Quiet s call.locker) (hc : s.calls c = some call)
    (hst : run s c call = some s') : Quiet s' call.locker := by
  have hno : call.phase.locking → ∀ c' call', s.calls c' = some call' →
      call'.locker = call.locker → call'.phase ≠ .released := by
    intro hl c' call' hc' hi' hp'
    obtain rfl := h.one c' c call' call hc' hc hi' rfl (.inr (by rw [hp']; trivial)) (.inl hl)
    obtain rfl := Option.some.inj (hc.symm.trans hc')
    rw [hp'] at hl
    exact hl
  unfold run at hst
  split at hst
  · rename_i now lockedTill token hp
    have hl : call.phase.locking := by rw [hp]; trivial
    have hsent := h.token c call token hc rfl (.inl hl) (by rw [hp]; rfl)
    have hd := docToken_updateOne now lockedTill token s.doc
    rcases hop : updateOne now lockedTill token s.doc with ⟨doc, n⟩
    simp only [hop, Option.some.injEq] at hst hd
    subst hst
    by_cases hn : n = 1
    · rw [if_pos hn] at hd ⊢
      obtain ⟨hwrote, htoken⟩ := h.wrote lockedTill (hd.trans hsent) (hno hl)
      exact hwrote.answered hc rfl (fun _ => hl) (fun hu => absurd hu id)
        (fun hp' => by cases hp') fun _ => .inr htoken
    · rw [if_neg hn] at hd ⊢
      have hkept : Quiet { s with doc } call.locker := h.kept fun t ht => by rw [← hd, ht]
      exact hkept.answered hc rfl (fun _ => hl) (fun hu => absurd hu id) (fun hp' => by cases hp')
        fun _ => .inl ⟨trivial, hn⟩
  · rename_i lockedTill token hp
    have hl : call.phase.locking := by rw [hp]; trivial
    have hsent := h.token c call token hc rfl (.inl hl) (by rw [hp]; rfl)
    have hd := docToken_insertOne lockedTill token s.doc
    rcases hop : insertOne lockedTill token s.doc with ⟨doc, ok⟩
    simp only [hop, Option.some.injEq] at hst hd
    subst hst
    by_cases hok : ok = true
    · rw [if_pos hok] at hd ⊢
      obtain ⟨hwrote, htoken⟩ := h.wrote lockedTill (hd.trans hsent) (hno hl)
      exact hwrote.answered hc rfl (fun _ => hl) (fun hu => absurd hu id)
        (fun hp' => by cases hp') fun _ => .inr htoken
    · rw [if_neg hok] at hd ⊢
      have hkept : Quiet { s with doc } call.locker := h.kept fun t ht => by rw [← hd, ht]
      exact hkept.answered hc rfl (fun _ => hl) (fun hu => absurd hu id) (fun hp' => by cases hp')
        fun _ => .inl ⟨trivial, hok⟩
  · rename_i lockedTill token hp
    have hd := docToken_prolong lockedTill token s.doc
    rcases hop : prolong lockedTill token s.doc with ⟨doc, found⟩
    simp only [hop, Option.some.injEq] at hst hd
    subst hst
    have hwrote : Quiet (if found then s.wrote call.locker lockedTill else s) call.locker := by
      split_ifs
      · exact h.setLocker rfl rfl rfl
      · exact h
    have hdoc : (if found then s.wrote call.locker lockedTill else s).doc = s.doc := by
      split_ifs <;> rfl
    have hcalls : (if found then s.wrote call.locker lockedTill else s).calls = s.calls := by
      split_ifs <;> rfl
    refine (hwrote.kept fun t ht => ?_).answered (by rw [← hc, ← hcalls]) rfl
      (fun hl => absurd hl id) (fun hu => absurd hu id) (fun hp' => by cases hp') fun hw => ?_
    · rw [hdoc, ← hd, ht]
    · rw [hp] at hw
      exact absurd hw.1 id
  · rename_i token hp
    have hu : call.phase.unlocking := by rw [hp]; trivial
    have hsent := h.token c call token hc rfl (.inr hu) (by rw [hp]; rfl)
    have hd := docToken_release token s.doc
    rcases hop : release token s.doc with ⟨doc, found⟩
    simp only [hop, Option.some.injEq] at hst hd
    subst hst
    refine Quiet.answered (s := { s with doc }) (h.kept fun t ht => ?_) hc rfl
      (fun hl => absurd hl id) (fun _ => hu) (fun _ t ht hdoc => ?_) fun hw => ?_
    · rw [hd] at ht
      split_ifs at ht
      exact ht
    · have hnone : docToken doc ≠ some t := by
        rw [hd]
        split_ifs with hs
        · simp
        · exact fun hs' => hs (hs'.trans (ht.symm.trans hsent.symm))
      exact hnone hdoc
    · rw [hp] at hw
      exact absurd hw.1 id
  · cases hst

theorem Quiet.lock (h : Quiet s i) (hidle : Idle s i) {l : Locker} (hunlocked : l.unlocked = false)
    (hreleased : l.released = false) :
    Quiet ((s.setLocker i l).setCall c (some { locker := i, phase := .lock })) i := by
  have hl : ((s.setLocker i l).setCall c (some { locker := i, phase := .lock })).lockers i = l := by
    simp [Sys.setCall, Sys.setLocker]
  have hself : ((s.setLocker i l).setCall c (some { locker := i, phase := .lock })).calls c =
      some { locker := i, phase := .lock } := by rw [calls_setCall, if_pos rfl]
  have hback : ∀ c' call', ((s.setLocker i l).setCall c (some { locker := i, phase := .lock })).calls
      c' = some call' → c' = c ∧ call' = { locker := i, phase := .lock } ∨
        s.calls c' = some call' := by
    intro c' call' hc
    rw [calls_setCall] at hc
    split_ifs at hc with hcc
    · exact .inl ⟨hcc, (Option.some.inj hc).symm⟩
    · exact .inr hc
  -- only the new call is busy
  have hbusy : ∀ c' call', ((s.setLocker i l).setCall c (some { locker := i, phase := .lock })).calls
      c' = some call' → call'.locker = i → call'.phase.busy →
      c' = c ∧ call' = { locker := i, phase := .lock } := by
    intro c' call' hc hi hb
    exact (hback c' call' hc).elim id fun hc => absurd hb (hidle c' call' hc hi)
  constructor
  · intro c' call' hc hi
    rw [hl]
    refine ⟨fun _ => hunlocked, fun hu => ?_⟩
    obtain ⟨-, rfl⟩ := hbusy c' call' hc hi (.inr hu)
    exact absurd hu id
  · intro c₁ c₂ call₁ call₂ hc₁ hc₂ hi₁ hi₂ hb₁ hb₂
    exact (hbusy c₁ call₁ hc₁ hi₁ hb₁).1.trans (hbusy c₂ call₂ hc₂ hi₂ hb₂).1.symm
  · rw [hl]
    exact fun hu => absurd hu (by simp [hunlocked])
  · intro c' call' token hc hi hb ht
    obtain ⟨-, rfl⟩ := hbusy c' call' hc hi hb
    cases ht
  · intro c' call' lockedTill token hc hi hp
    rcases hback c' call' hc with ⟨-, rfl⟩ | hc
    · cases hp
    · exact ⟨(h.prolongs c' call' lockedTill token hc hi hp).1,
        fun _ => .inr ⟨c, _, hself, rfl, trivial, id⟩⟩
  · intro c' call' hc hi hp
    obtain ⟨-, rfl⟩ := hbusy c' call' hc hi (.inr (by rw [hp]; trivial))
    cases hp
  · rw [hl]
    exact fun hr => absurd hr (by simp [hreleased])

/-- `unlock()` cancels the timer it knows, and that is the only one. -/
theorem Quiet.unlock (h : Quiet s i) (hidle : Idle s i)
    (htimers : ∀ h timer, s.timers.armed h = some timer → timer.owner = i →
      (s.lockers i).lockProlongationTimeout = some h) {l : Locker}
    (htoken : l.lockToken = (s.lockers i).lockToken) (hunlocked : l.unlocked = true)
    (hreleased : l.released = false) :
    Quiet (((cancelLockProlongation s i).setLocker i l).setCall c
      (some { locker := i, phase := .unlock })) i := by
  have hl : ((cancelLockProlongation s i).setLocker i l).lockers i = l := by
    rw [lockers_setLocker, if_pos rfl]
  have hset : Quiet ((cancelLockProlongation s i).setLocker i l) i := by
    constructor
    · exact fun c' call' hc hi => ⟨fun hp => absurd (.inl hp) (hidle c' call' hc hi),
        fun hp => absurd (.inr hp) (hidle c' call' hc hi)⟩
    · exact h.one
    · intro _ handle timer harmed hi
      obtain ⟨hne, harmed⟩ := Timers.armed_clearTimeout.1 harmed
      exact hne (htimers handle timer harmed hi)
    · rw [hl, htoken]
      exact h.token
    · rw [hl, htoken]
      exact h.prolongs
    · rw [hl, htoken]
      exact h.done
    · rw [hl]
      exact fun hr => absurd hr (by simp [hreleased])
  refine hset.setCall (fun call hx _ => ?_) fun call hc hi hp =>
    absurd (.inl hp.1) (hidle c call hc hi)
  obtain rfl := Option.some.inj hx
  exact {
    locking := fun hp => absurd hp id
    unlocking := fun _ => by rw [hl]; exact ⟨hunlocked, hreleased⟩
    one := fun _ c' call' hc' hi' hb' => absurd hb' (hidle c' call' hc' hi')
    token := fun token ht => by cases ht
    prolong := fun lockedTill token hp => by cases hp
    done := fun hp => by cases hp }

theorem Quiet.fire {handle : ℕ} (h : Quiet s i) (hc : s.calls c = none) :
    Quiet ({ s with timers := s.timers.clear handle }.setCall c
      (some { locker := i, phase := .prolongLock })) i := by
  have hclear : Quiet { s with timers := s.timers.clear handle } i :=
    ⟨h.engaged, h.one,
      fun hu handle timer harmed => h.timers hu handle timer (Timers.armed_clear.1 harmed).2,
      h.token, h.prolongs, h.done, h.released⟩
  refine hclear.setCall (fun call hx _ => ?_) fun call hc' _ _ => ?_
  · obtain rfl := Option.some.inj hx
    exact {
      locking := fun hp => absurd hp id
      unlocking := fun hp => absurd hp id
      one := fun hb => (hb.elim id id).elim
      token := fun token ht => by cases ht
      prolong := fun lockedTill token hp => by cases hp
      done := fun hp => by cases hp }
  · simp [hc] at hc'

theorem quiet_step (h : ∀ i, Quiet s i) (ht : Tokens s) (hclean : Clean s a)
    (hst : step viewLockTtl s a = some s') (i : ℕ) : Quiet s' i := by
  by_cases hi : actor s a = some i
  · unfold step at hst
    cases a with
    | tick ms => cases hi
    | lock c j =>
      obtain rfl : j = i := Option.some.inj hi
      rcases hc : s.calls c with _ | call <;> simp only [hc, Option.some.injEq, reduceCtorEq] at hst
      exact hst ▸ (h j).lock hclean rfl rfl
    | unlock c j =>
      obtain rfl : j = i := Option.some.inj hi
      rcases hc : s.calls c with _ | call <;> simp only [hc, Option.some.injEq, reduceCtorEq] at hst
      exact hst ▸ (h j).unlock hclean.1 hclean.2 rfl rfl rfl
    | fire c handle =>
      simp only [] at hst
      split at hst
      · rename_i timer hc htimer
        split_ifs at hst
        obtain rfl : timer.owner = i := by simpa [actor, htimer] using hi
        exact Option.some.inj hst ▸ (h _).fire hc
      · cases hst
    | goOn c =>
      obtain ⟨call, hc, hst⟩ := Option.bind_eq_some_iff.1 hst
      obtain rfl : call.locker = i := by simpa [actor, hc] using hi
      exact quiet_goOn (h _) hc hclean hst
    | run c =>
      obtain ⟨call, hc, hst⟩ := Option.bind_eq_some_iff.1 hst
      obtain rfl : call.locker = i := by simpa [actor, hc] using hi
      exact quiet_run (h _) hc hst
  · exact (h i).same ht (same_step ht hi hst)

theorem quiet_init (h : Init s) (i : ℕ) : Quiet s i := by
  obtain ⟨hlockers, hcalls, harmed⟩ := h
  constructor <;> simp [hlockers, hcalls, harmed]

theorem quiet (h : (machine viewLockTtl).ReachIf Clean s) (i : ℕ) : Quiet s i :=
  ReachIf.invariant_of_reach (P := fun s => ∀ i, Quiet s i) (fun _ => quiet_init)
    (fun _ _ _ hr hq hC hst => quiet_step hq (tokens hr) hC hst) h i

/-! ## Release is final -/

/-- The lock can be had as soon as the operation of `unlock()` has run. -/
theorem updateOne_of_release {token token' : Option LockToken} {doc : Option ViewLockDocument}
    (h : (release token doc).2) (now lockedTill : ℤ) :
    (updateOne now lockedTill token' (release token doc).1).2 = 1 := by
  rcases hop : release token doc with ⟨doc', found⟩
  have hspec := release_spec hop
  rw [hop] at h
  rw [if_pos h] at hspec
  obtain ⟨d, -, -, rfl⟩ := hspec
  simp [updateOne]

theorem doc_goOn (hst : goOn viewLockTtl s c call = some s') : s'.doc = s.doc := by
  unfold goOn at hst
  simp only [] at hst
  split at hst <;> (try split_ifs at hst) <;> cases hst <;> rfl

theorem writesDoc_of_run (hst : run s c call = some s') (hd : s'.doc ≠ s.doc) :
    writesDoc s.doc call.phase := by
  unfold run at hst
  split at hst
  · rename_i now lockedTill token hp
    rw [hp]
    rcases hop : updateOne now lockedTill token s.doc with ⟨doc, n⟩
    simp only [hop, Option.some.injEq] at hst
    have hspec := updateOne_spec hop
    split_ifs at hspec with hn
    · exact (congrArg Prod.snd hop).trans hn
    · exact absurd (by rw [← hst, ← hspec]; rfl) hd
  · rename_i lockedTill token hp
    rw [hp]
    rcases hop : insertOne lockedTill token s.doc with ⟨doc, ok⟩
    simp only [hop, Option.some.injEq] at hst
    have hspec := insertOne_spec hop
    split_ifs at hspec with hok
    · exact (congrArg Prod.snd hop).trans hok
    · exact absurd (by rw [← hst, ← hspec]; rfl) hd
  · rename_i lockedTill token hp
    rw [hp]
    rcases hop : prolong lockedTill token s.doc with ⟨doc, found⟩
    simp only [hop, Option.some.injEq] at hst
    have hspec := prolong_spec hop
    split_ifs at hspec with hfound
    · exact (congrArg Prod.snd hop).trans hfound
    · exact absurd (by rw [← hst, ← hspec]; rfl) hd
  · rename_i token hp
    rw [hp]
    rcases hop : release token s.doc with ⟨doc, found⟩
    simp only [hop, Option.some.injEq] at hst
    have hspec := release_spec hop
    split_ifs at hspec with hfound
    · exact (congrArg Prod.snd hop).trans hfound
    · exact absurd (by rw [← hst, ← hspec]; rfl) hd
  · cases hst

/-- A step that changes the document is a write of some locker. -/
theorem writes_of_doc_ne (hst : step viewLockTtl s a = some s') (hd : s'.doc ≠ s.doc) :
    ∃ i, Writes s i a := by
  unfold step at hst
  cases a with
  | tick ms => exact absurd (Option.some.inj hst ▸ rfl) hd
  | lock c i =>
    rcases hc : s.calls c with _ | call <;> simp only [hc, Option.some.injEq, reduceCtorEq] at hst
    exact absurd (hst ▸ rfl) hd
  | unlock c i =>
    rcases hc : s.calls c with _ | call <;> simp only [hc, Option.some.injEq, reduceCtorEq] at hst
    exact absurd (hst ▸ rfl) hd
  | fire c handle =>
    simp only [] at hst
    split at hst
    · split_ifs at hst
      exact absurd (Option.some.inj hst ▸ rfl) hd
    · cases hst
  | goOn c =>
    obtain ⟨call, hc, hst⟩ := Option.bind_eq_some_iff.1 hst
    exact absurd (doc_goOn hst) hd
  | run c =>
    obtain ⟨call, hc, hst⟩ := Option.bind_eq_some_iff.1 hst
    exact ⟨call.locker, call, hc, rfl, writesDoc_of_run hst hd⟩

/-- In every run in which `lock()` and `unlock()` of each locker come one at a time and no
`prolongLock()` outlives `unlock()`, a locker whose `unlock()` has resolved writes nothing until it
calls `lock()`. -/
theorem release_final (h : (machine viewLockTtl).ReachIf Clean s)
    (hr : (s.lockers i).released = true) (a : Action) : ¬ Writes s i a :=
  (quiet h i).not_writes hr

/-- Half of the TTL after `lock()` returned, `prolongLock()` runs and arms the timer again; then the
locker unlocks. -/
theorem release_final_prolonged :
    ∃ s : Sys, s.now = 60000 ∧ s.timers.nextHandle = 2 ∧ (s.lockers 0).released = true ∧
      ∀ a, ¬ Writes s 0 a := by
  let m := machine fun _ => 120000
  have h0 : m.ReachIf Clean {} := .init ⟨fun _ => rfl, fun _ => rfl, fun _ => rfl⟩
  have h1 := h0.step (Action.lock 0 0) (fun c call hc => by cases hc) rfl
  have h2 := h1.step (Action.goOn 0) (fun call hc => by cases hc; simp) rfl
  have h3 := h2.step (Action.run 0) trivial rfl
  have h4 := h3.step (Action.goOn 0) (fun call hc => by cases hc; simp) rfl
  have h5 := h4.step (Action.run 0) trivial rfl
  have h6 := h5.step (Action.goOn 0) (fun call hc => by cases hc; simp) rfl
  have h7 := h6.step (Action.tick 60000) trivial rfl
  have h8 := h7.step (Action.fire 0 0) trivial rfl
  have h9 := h8.step (Action.goOn 0) (fun call hc => by
    cases hc
    exact ⟨fun _ => by decide, fun hp => by cases hp⟩) rfl
  have h10 := h9.step (Action.run 0) trivial rfl
  have h11 := h10.step (Action.goOn 0) (fun call hc => by
    cases hc
    exact ⟨fun hp => (by cases hp), fun _ => rfl⟩) rfl
  have h12 := h11.step (Action.unlock 0 0) (by
    refine ⟨fun c call hc => ?_, fun h timer harmed _ => ?_⟩
    · rcases c with _ | c <;> cases hc
    · rcases h with _ | _ | h <;> cases harmed
      rfl) rfl
  have h13 := h12.step (Action.goOn 0) (fun call hc => by cases hc; simp) rfl
  have h14 := h13.step (Action.run 0) trivial rfl
  have h15 := h14.step (Action.goOn 0) (fun call hc => by cases hc; simp) rfl
  exact ⟨_, rfl, rfl, rfl, release_final h15 rfl⟩

/-- `unlock()` is called when the operation of `prolongLock()` has run and its answer is under way;
with the answer the timer is armed again. When that fires, the token is gone. -/
theorem release_final_fails :
    ¬ ∀ (viewLockTtl : ℕ → ℤ) (s : Sys) (i : ℕ), (machine viewLockTtl).ReachIf Apart s →
      (s.lockers i).released = true → ∀ a, ¬ Writes s i a := by
  intro hall
  let m := machine fun _ => 1000
  have h0 : m.ReachIf Apart {} := .init ⟨fun _ => rfl, fun _ => rfl, fun _ => rfl⟩
  have h1 := h0.step (Action.lock 0 0) (fun c call hc => by cases hc) rfl
  have h2 := h1.step (Action.goOn 0) trivial rfl
  have h3 := h2.step (Action.run 0) trivial rfl
  have h4 := h3.step (Action.goOn 0) trivial rfl
  have h5 := h4.step (Action.run 0) trivial rfl
  have h6 := h5.step (Action.goOn 0) trivial rfl
  have h7 := h6.step (Action.tick 500) trivial rfl
  have h8 := h7.step (Action.fire 0 0) trivial rfl
  have h9 := h8.step (Action.goOn 0) trivial rfl
  have h10 := h9.step (Action.run 0) trivial rfl
  have h11 := h10.step (Action.unlock 1 0) (fun c call hc hi hb => by
    rcases c with _ | c <;> cases hc
    exact hb.elim id id) rfl
  have h12 := h11.step (Action.goOn 1) trivial rfl
  have h13 := h12.step (Action.run 1) trivial rfl
  have h14 := h13.step (Action.goOn 0) trivial rfl
  have h15 := h14.step (Action.goOn 1) trivial rfl
  have h16 := h15.step (Action.tick 500) trivial rfl
  have h17 := h16.step (Action.fire 0 1) trivial rfl
  have h18 := h17.step (Action.goOn 0) trivial rfl
  exact hall _ _ 0 h18 rfl (Action.run 0) ⟨_, rfl, rfl, rfl⟩

end MongoViewLocker

end NodeCqrs
