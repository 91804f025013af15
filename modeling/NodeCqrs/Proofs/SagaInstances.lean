import Mathlib.Data.List.Nodup
import NodeCqrs.Proofs.SagaEventHandler
import NodeCqrs.Proofs.SagaQueue

/-!
# The instances a handler keeps

The calls in flight for a saga are those in line for the instance its cache has (`Line`), for every
saga at any time (`Agrees`), as long as a lock is granted in the order of the requests, nothing
fails but the making of a saga, and a call that finds the instance in use is left it where it needs
it (`Orderly`).
-/

namespace NodeCqrs

namespace SagaEventHandler

variable {I V σ D : Type} {T : SagaOptions I V σ D} {s s' : SagaEventHandler I V σ D}

/-- The calls in flight for a saga: `rs` have asked for its lock and `ws` await its promise. -/
structure Line (T : SagaOptions I V σ D) (s : SagaEventHandler I V σ D) (id : String) (saga : ℕ)
    (promise : SagaPromise I V σ) (rs ws : List (ℕ × SagaCall I V)) : Prop where
  sagas : s.sagas[saga]? = some promise
  requests : s.requests id = rs.map Prod.fst
  waiters : s.waiters saga = ws.map Prod.fst
  nodup : ((rs ++ ws).map Prod.fst).Nodup
  mem_iff : ∀ c call, (c, call) ∈ rs ++ ws ↔
    s.calls c = some call ∧ call.sagaId = id ∧ call.await ≠ .rejected
  calls : ∀ c call, s.calls c = some call → call.sagaId = id →
    call.saga = saga ∧ (call.await = .rejected → promise = .rejected)
  serving : Serving T s.eventStore promise rs ws

namespace Line

variable {id : String} {saga : ℕ} {promise promise' : SagaPromise I V σ}
  {rs ws rs' ws' : List (ℕ × SagaCall I V)} {c : ℕ} {call call' : SagaCall I V}

/-- Nothing has happened to the saga but that the store has more. -/
theorem frame (h : Line T s id saga promise rs ws) (hs : s'.sagas[saga]? = s.sagas[saga]?)
    (hr : s'.requests id = s.requests id) (hw : s'.waiters saga = s.waiters saga)
    (hc : ∀ c call, call.sagaId = id → (s'.calls c = some call ↔ s.calls c = some call))
    (hm : ∀ call state, Made T s.eventStore call state → Made T s'.eventStore call state) :
    Line T s' id saga promise rs ws where
  sagas := hs.trans h.sagas
  requests := hr.trans h.requests
  waiters := hw.trans h.waiters
  nodup := h.nodup
  mem_iff c call := by
    rw [h.mem_iff]
    exact ⟨fun ⟨h1, h2, h3⟩ => ⟨(hc c call h2).2 h1, h2, h3⟩,
      fun ⟨h1, h2, h3⟩ => ⟨(hc c call h2).1 h1, h2, h3⟩⟩
  calls c call h1 h2 := h.calls c call ((hc c call h2).1 h1) h2
  serving := h.serving.mono hm

/-- A call that works has its turn. -/
theorem working (h : Line T s id saga promise rs ws) (hc : s.calls c = some call)
    (hid : call.sagaId = id) (ha : call.await = .handle ∨ call.await = .send) :
    ∃ rs', rs = (c, call) :: rs' := by
  have hmem : (c, call) ∈ rs ++ ws := by
    refine (h.mem_iff c call).2 ⟨hc, hid, ?_⟩
    rcases ha with ha | ha <;> simp [ha]
  rcases List.mem_append.1 hmem with hmem | hmem
  · rcases rs with _ | ⟨r, rs⟩
    · simp at hmem
    · rcases List.mem_cons.1 hmem with rfl | hmem
      · exact ⟨rs, rfl⟩
      · have := h.serving.behind _ hmem
        rcases ha with ha | ha <;> simp [ha] at this
  · have := h.serving.waiting _ hmem
    rcases ha with ha | ha <;> simp [ha] at this

/-- The promise of a saga whose lock is asked for has resolved. -/
theorem resolved (h : Line T s id saga promise ((c, call) :: rs) ws) :
    ∃ state, promise = .resolved state := by
  cases promise with
  | pending factory => exact absurd (h.serving.pending factory rfl).1 (by simp)
  | rejected => exact absurd (h.serving.rejected rfl) (by simp)
  | resolved state => exact ⟨state, rfl⟩

/-- One call in line has gone on. -/
theorem replace (h : Line T s id saga promise rs ws) {pre post : List (ℕ × SagaCall I V)}
    (hl : rs ++ ws = pre ++ (c, call) :: post) (hl' : rs' ++ ws' = pre ++ (c, call') :: post)
    (hid : call'.sagaId = call.sagaId) (hsaga : call'.saga = call.saga)
    (ha : call'.await ≠ .rejected) (hp : promise ≠ .rejected)
    (hs : s'.sagas[saga]? = some promise') (hr : s'.requests id = rs'.map Prod.fst)
    (hw : s'.waiters saga = ws'.map Prod.fst)
    (hc : s'.calls = Function.update s.calls c (some call'))
    (hserving : Serving T s'.eventStore promise' rs' ws') :
    Line T s' id saga promise' rs' ws' := by
  have hmem : (c, call) ∈ rs ++ ws := by simp [hl]
  obtain ⟨hcall, hcid, -⟩ := (h.mem_iff c call).1 hmem
  have hnd := h.nodup
  rw [hl, List.map_append, List.map_cons, List.nodup_middle, List.nodup_cons, ← List.map_append]
    at hnd
  refine ⟨hs, hr, hw, ?_, fun c' x => ?_, fun c' x hc' hx => ?_, hserving⟩
  · rw [hl', List.map_append, List.map_cons, List.nodup_middle, List.nodup_cons, ← List.map_append]
    exact hnd
  · have hold := h.mem_iff c' x
    rw [hl, List.mem_append, List.mem_cons] at hold
    rw [hl', List.mem_append, List.mem_cons, hc]
    by_cases hcc : c' = c
    · subst hcc
      have hpre : (c', x) ∉ pre ∧ (c', x) ∉ post := by
        refine ⟨fun hx => hnd.1 ?_, fun hx => hnd.1 ?_⟩
        · exact List.mem_map.2 ⟨_, List.mem_append_left _ hx, rfl⟩
        · exact List.mem_map.2 ⟨_, List.mem_append_right _ hx, rfl⟩
      simp only [hpre, Function.update_self, Option.some.injEq, Prod.mk.injEq, true_and, false_or,
        or_false]
      constructor
      · rintro rfl
        exact ⟨rfl, hid.trans hcid, ha⟩
      · exact fun hx => hx.1.symm
    · simpa [hcc] using hold
  · rw [hc] at hc'
    by_cases hcc : c' = c
    · subst hcc
      obtain rfl : call' = x := by simpa using hc'
      exact ⟨hsaga.trans (h.calls c' call hcall hcid).1, fun hx => absurd hx ha⟩
    · obtain ⟨h1, h2⟩ := h.calls c' x (by simpa [hcc] using hc') hx
      exact ⟨h1, fun hx => absurd (h2 hx) hp⟩

/-- The first call in line is gone. -/
theorem remove (h : Line T s id saga promise rs ws) (hl : rs ++ ws = (c, call) :: (rs' ++ ws'))
    (hp : promise = .rejected → promise' = .rejected) (hs : s'.sagas[saga]? = some promise')
    (hr : s'.requests id = rs'.map Prod.fst)
    (hw : s'.waiters saga = ws'.map Prod.fst)
    (hc : ∀ c' x, c' ≠ c → (s'.calls c' = some x ↔ s.calls c' = some x))
    (hx : ∀ x, s'.calls c = some x → x.saga = call.saga ∧ x.await = .rejected
      ∧ promise' = .rejected)
    (hserving : Serving T s'.eventStore promise' rs' ws') : Line T s' id saga promise' rs' ws' := by
  have hmem : (c, call) ∈ rs ++ ws := by simp [hl]
  obtain ⟨hcall, hcid, -⟩ := (h.mem_iff c call).1 hmem
  have hnd := h.nodup
  rw [hl, List.map_cons, List.nodup_cons] at hnd
  refine ⟨hs, hr, hw, hnd.2, fun c' x => ?_, fun c' x hc' hid => ?_, hserving⟩
  · have hold := h.mem_iff c' x
    rw [hl, List.mem_cons] at hold
    by_cases hcc : c' = c
    · subst hcc
      have hx' : (c', x) ∉ rs' ++ ws' := fun hm => hnd.1 (List.mem_map.2 ⟨_, hm, rfl⟩)
      simp only [hx', false_iff, not_and, not_not]
      exact fun hc' _ => (hx x hc').2.1
    · rw [hc c' x hcc, ← hold]
      simp [hcc]
  · by_cases hcc : c' = c
    · subst hcc
      obtain ⟨h1, -, h2⟩ := hx x hc'
      exact ⟨h1.trans (h.calls c' call hcall hcid).1, fun _ => h2⟩
    · obtain ⟨h1, h2⟩ := h.calls c' x ((hc c' x hcc).1 hc') hid
      exact ⟨h1, fun hx => hp (h2 hx)⟩

/-- A call is new in line. -/
theorem add (h : Line T s id saga promise rs ws) (hcn : s.calls c = none)
    (hid : call.sagaId = id) (hsaga : call.saga = saga) (ha : call.await = .saga)
    (hs : s'.sagas[saga]? = some promise) (hr : s'.requests id = s.requests id)
    (hw : s'.waiters saga = s.waiters saga ++ [c])
    (hc : s'.calls = Function.update s.calls c (some call))
    (hserving : Serving T s'.eventStore promise rs (ws ++ [(c, call)])) :
    Line T s' id saga promise rs (ws ++ [(c, call)]) := by
  refine ⟨hs, hr.trans h.requests, ?_, ?_, fun c' x => ?_, fun c' x hc' hx => ?_, hserving⟩
  · rw [hw, h.waiters]
    simp
  · rw [← List.append_assoc, List.map_append, List.map_singleton, List.nodup_append]
    refine ⟨h.nodup, List.nodup_singleton c, ?_⟩
    rintro a ha b hb rfl
    obtain rfl := List.mem_singleton.1 hb
    obtain ⟨⟨a, x⟩, hx, rfl⟩ := List.mem_map.1 ha
    simp [((h.mem_iff a x).1 hx).1] at hcn
  · rw [← List.append_assoc, List.mem_append, h.mem_iff, hc]
    by_cases hcc : c' = c
    · subst hcc
      simp only [hcn, reduceCtorEq, false_and, false_or, List.mem_singleton, Prod.mk.injEq,
        true_and, Function.update_self, Option.some.injEq]
      constructor
      · rintro rfl
        exact ⟨rfl, hid, by simp [ha]⟩
      · exact fun hx => hx.1.symm
    · simp [hcc]
  · rw [hc] at hc'
    by_cases hcc : c' = c
    · subst hcc
      obtain rfl : call = x := by simpa using hc'
      exact ⟨hsaga, fun hx => by simp [ha] at hx⟩
    · exact h.calls c' x (by simpa [hcc] using hc') hx

/-- A call is alone in line for its saga. -/
theorem single (hn : ∀ c' x, s.calls c' = some x → x.sagaId ≠ id) (hid : call.sagaId = id)
    (hsaga : call.saga = saga) (ha : call.await = .saga) (hs : s'.sagas[saga]? = some promise)
    (hr : s'.requests id = []) (hw : s'.waiters saga = [c])
    (hc : s'.calls = Function.update s.calls c (some call))
    (hserving : Serving T s'.eventStore promise [] [(c, call)]) :
    Line T s' id saga promise [] [(c, call)] := by
  refine ⟨hs, hr, hw, List.nodup_singleton c, fun c' x => ?_, fun c' x hx hxid => ?_, hserving⟩
  · by_cases hcc : c' = c
    · subst hcc
      simp only [hc, Function.update_self, Option.some.injEq, List.nil_append, List.mem_singleton,
        Prod.mk.injEq, true_and]
      constructor
      · rintro rfl
        exact ⟨rfl, hid, by simp [ha]⟩
      · exact fun hx => hx.1.symm
    · simpa [hc, hcc] using fun hx hxid => absurd hxid (hn c' x hx)
  · by_cases hcc : c' = c
    · subst hcc
      obtain rfl : call = x := by simpa [hc] using hx
      exact ⟨hsaga, by simp [ha]⟩
    · exact absurd hxid (hn c' x (by simpa [hc, hcc] using hx))

end Line

/-- Each saga in the cache has its calls in line, and what is of no saga there has none. -/
structure Agrees (T : SagaOptions I V σ D) (s : SagaEventHandler I V σ D) : Prop where
  factories : ∀ id, s.sagasCache.factories id = none
  idle : ∀ id, s.sagasCache.entries id = none → s.requests id = []
  stale : ∀ saga, (∀ id, s.sagasCache.entries id ≠ some saga) → s.waiters saga = []
  inj : ∀ id id' saga, s.sagasCache.entries id = some saga → s.sagasCache.entries id' = some saga →
    id = id'
  line : ∀ id saga, s.sagasCache.entries id = some saga →
    ∃ promise rs ws, Line T s id saga promise rs ws

namespace Agrees

/-- Something has happened to one saga. -/
theorem update (h : Agrees T s) (hcounts : Counts s') {id : String} {saga : ℕ}
    {promise : SagaPromise I V σ} {rs ws : List (ℕ × SagaCall I V)}
    (hid : ∀ id', s.sagasCache.entries id' = some saga → id' = id)
    (hsaga : ∀ saga', s.sagasCache.entries id = some saga' → saga' = saga)
    (hstore : s'.eventStore = s.eventStore) (hf : s'.sagasCache.factories = s.sagasCache.factories)
    (he : ∀ id', id' ≠ id → s'.sagasCache.entries id' = s.sagasCache.entries id')
    (he' : ∀ saga', s'.sagasCache.entries id = some saga' → saga' = saga)
    (hr : ∀ id', id' ≠ id → s'.requests id' = s.requests id')
    (hw : ∀ saga', saga' ≠ saga → s'.waiters saga' = s.waiters saga')
    (hs : ∀ id' saga', s.sagasCache.entries id' = some saga' → saga' ≠ saga →
      s'.sagas[saga']? = s.sagas[saga']?)
    (hc : ∀ c call, call.sagaId ≠ id → (s'.calls c = some call ↔ s.calls c = some call))
    (hl : Line T s' id saga promise rs ws) : Agrees T s' := by
  have hempty : s'.sagasCache.entries id = none → rs ++ ws = [] := by
    intro hn
    refine List.eq_nil_iff_forall_not_mem.2 fun x hx => ?_
    obtain ⟨hx1, hx2, -⟩ := (hl.mem_iff x.1 x.2).1 hx
    have hpos := hcounts.pos_of_uses ⟨x.2, hx1, hx2⟩
    have hhas := (hcounts.has_iff id).2 hpos
    simp [MapAssertable.has, hn, hf, h.factories] at hhas
  have hne : ∀ id' saga', id' ≠ id → s.sagasCache.entries id' = some saga' → saga' ≠ saga := by
    rintro id' saga' hne hen rfl
    exact hne (hid id' hen)
  refine ⟨fun id' => by rw [hf, h.factories], fun id' hn => ?_, fun saga' hsaga' => ?_,
    fun id₁ id₂ saga' h1 h2 => ?_, fun id' saga' hen => ?_⟩
  · by_cases hii : id' = id
    · subst hii
      rw [hl.requests, (List.append_eq_nil_iff.1 (hempty hn)).1]
      rfl
    · rw [hr id' hii]
      exact h.idle id' (he id' hii ▸ hn)
  · by_cases hss : saga' = saga
    · subst hss
      have hn : s'.sagasCache.entries id = none := by
        rcases hen : s'.sagasCache.entries id with _ | saga''
        · rfl
        · exact absurd (he' _ hen ▸ hen) (hsaga' id)
      rw [hl.waiters, (List.append_eq_nil_iff.1 (hempty hn)).2]
      rfl
    · rw [hw saga' hss]
      refine h.stale saga' fun id' hen => ?_
      by_cases hii : id' = id
      · subst hii
        exact hss (hsaga _ hen)
      · exact hsaga' id' ((he id' hii).trans hen)
  · by_cases hi1 : id₁ = id <;> by_cases hi2 : id₂ = id
    · rw [hi1, hi2]
    · subst hi1
      obtain rfl := he' _ h1
      exact absurd rfl (hne id₂ _ hi2 ((he id₂ hi2).symm.trans h2))
    · subst hi2
      obtain rfl := he' _ h2
      exact absurd rfl (hne id₁ _ hi1 ((he id₁ hi1).symm.trans h1))
    · exact h.inj id₁ id₂ saga' ((he id₁ hi1).symm.trans h1) ((he id₂ hi2).symm.trans h2)
  · by_cases hii : id' = id
    · subst hii
      obtain rfl := he' _ hen
      exact ⟨promise, rs, ws, hl⟩
    · have hen' := (he id' hii).symm.trans hen
      obtain ⟨promise', rs', ws', hl'⟩ := h.line id' saga' hen'
      refine ⟨promise', rs', ws', hl'.frame (hs id' saga' hen' (hne id' saga' hii hen')) (hr id' hii)
        (hw saga' (hne id' saga' hii hen')) (fun c call hcall => hc c call ?_) ?_⟩
      · exact fun hx => hii (hcall.symm.trans hx)
      · rw [hstore]
        exact fun _ _ hm => hm

/-- Nothing has happened but that the store has more. -/
theorem mono (h : Agrees T s) (hm : ∀ call state, Made T s.eventStore call state →
      Made T s'.eventStore call state) (hcache : s'.sagasCache = s.sagasCache)
    (hs : s'.sagas = s.sagas) (hw : s'.waiters = s.waiters) (hr : s'.requests = s.requests)
    (hc : s'.calls = s.calls) : Agrees T s' where
  factories := by rw [hcache]; exact h.factories
  idle := by rw [hcache, hr]; exact h.idle
  stale := by rw [hcache, hw]; exact h.stale
  inj := by rw [hcache]; exact h.inj
  line id saga hen := by
    rw [hcache] at hen
    obtain ⟨promise, rs, ws, hl⟩ := h.line id saga hen
    exact ⟨promise, rs, ws, hl.frame (by rw [hs]) (by rw [hr]) (by rw [hw])
      (fun c call _ => by rw [hc]) hm⟩

end Agrees

/-- A lock is granted in the order of the requests, nothing fails but the making of a saga, and a
call that finds an instance in use follows the last call in line for it, as `follows` has it. -/
def Orderly (T : SagaOptions I V σ D) (follows : D → SagaCall I V → SagaCall I V → Prop)
    (s : SagaEventHandler I V σ D) : Action I V → Prop
  | .handle _ event => ∀ x ∈ (T.sagaFor event).toOption, ∀ saga ∈ s.sagasCache.entries x.2.1,
    s.sagas[saga]? ≠ some .rejected → ∀ c' ∈ (s.requests x.2.1 ++ s.waiters saga).getLast?,
    ∀ call' ∈ s.calls c',
      follows s.eventStore call' { event, sagaId := x.2.1, sagaOrigin := x.2.2, saga }
  | .acquired c => ∀ call ∈ s.calls c, (s.requests call.sagaId).head? = some c
  | .acquireRejects _ => False
  | .handled _ commands => commands.isSome
  | .sent _ resolved => resolved
  | _ => True

/-- A call of the saga changes no other's. -/
theorem calls_update_iff {id : String} {c : ℕ} {call' : Option (SagaCall I V)}
    (hid : ∀ x ∈ s.calls c, x.sagaId = id) (hid' : ∀ x ∈ call', x.sagaId = id) (c' : ℕ)
    (x : SagaCall I V) (hx : x.sagaId ≠ id) :
    Function.update s.calls c call' c' = some x ↔ s.calls c' = some x := by
  by_cases hcc : c' = c
  · subst hcc
    rw [Function.update_self]
    exact iff_of_false (fun hx' => hx (hid' x hx')) fun hx' => hx (hid x hx')
  · rw [Function.update_of_ne hcc]

namespace Agrees

variable {c : ℕ} {call : SagaCall I V} {saga : ℕ}

/-- The first of a saga's calls goes on with what is left of its commands. -/
theorem send (h : Agrees T s) {t : SagaEventHandler I V σ D} {commands : List (Command I V)}
    (hcounts : Counts (t.send c call commands)) {state state' : σ} {rs ws : List (ℕ × SagaCall I V)}
    (hid : s.sagasCache.entries call.sagaId = some saga)
    (hl : Line T s call.sagaId saga (.resolved state) ((c, call) :: rs) ws)
    (hstore : t.eventStore = s.eventStore) (hcache : t.sagasCache = s.sagasCache)
    (hw : t.waiters = s.waiters) (hr : t.requests = s.requests) (hc : t.calls = s.calls)
    (hs : t.sagas[saga]? = some (.resolved state'))
    (hs' : ∀ saga', saga' ≠ saga → t.sagas[saga']? = s.sagas[saga']?)
    (hserving : ∀ commands, Serving T s.eventStore (.resolved state')
      ((c, { call with await := .send, commands }) :: rs) ws) :
    Agrees T (t.send c call commands) := by
  have hcall : s.calls c = some call := ((hl.mem_iff c call).1 (by simp)).1
  have hids : ∀ id', s.sagasCache.entries id' = some saga → id' = call.sagaId :=
    fun id' hen => h.inj _ _ _ hen hid
  have hsagas : ∀ saga', s.sagasCache.entries call.sagaId = some saga' → saga' = saga :=
    fun saga' hen => Option.some.inj (hen.symm.trans hid)
  have hreq := hl.requests
  have hwait := hl.waiters
  cases commands with
  | cons command commands =>
    have hl' : Line T (t.send c call (command :: commands)) call.sagaId saga (.resolved state')
        ((c, { call with await := .send, commands := command :: commands }) :: rs) ws := by
      refine hl.replace (List.nil_append _).symm (List.nil_append _).symm rfl rfl (by simp) (by simp)
        hs ?_ ?_ ?_ ?_
      · simpa [SagaEventHandler.send, setCall, hr] using hreq
      · simpa [SagaEventHandler.send, setCall, hw] using hwait
      · simp [SagaEventHandler.send, setCall, hc]
      · simpa [SagaEventHandler.send, setCall, hstore] using hserving _
    refine h.update hcounts hids hsagas hstore (by simp [SagaEventHandler.send, setCall, hcache])
      (fun id' _ => by simp [SagaEventHandler.send, setCall, hcache])
      (fun saga' hen => hsagas saga' ?_) (fun id' _ => by simp [SagaEventHandler.send, setCall, hr])
      (fun saga' _ => by simp [SagaEventHandler.send, setCall, hw]) (fun _ saga' _ hne => hs' saga' hne)
      ?_ hl'
    · simpa [SagaEventHandler.send, setCall, hcache] using hen
    · simpa [SagaEventHandler.send, setCall, hc] using calls_update_iff (by simp [hcall]) (by simp)
  | nil =>
    have hl' : Line T (t.send c call []) call.sagaId saga (.resolved state') rs ws := by
      refine hl.remove rfl (by simp) hs ?_ ?_ ?_ ?_ ?_
      · simp [SagaEventHandler.send, finish, leave, hr, hreq]
      · simpa [SagaEventHandler.send, finish, leave, hw] using hwait
      · intro c' x hcc
        simp [SagaEventHandler.send, finish, leave, hc, hcc]
      · intro x hx
        simp [SagaEventHandler.send, finish, leave] at hx
      · simpa [SagaEventHandler.send, finish, leave, hstore] using (hserving []).leave rfl
    refine h.update hcounts hids hsagas hstore ?_ (fun id' hne => ?_)
      (fun saga' hen => hsagas saga' ?_) (fun id' hne => ?_)
      (fun saga' _ => by simp [SagaEventHandler.send, finish, leave, hw])
      (fun _ saga' _ hne => hs' saga' hne) ?_ hl'
    · simpa [SagaEventHandler.send, finish, leave, hcache] using
        MapAssertable.release_factories_eq s.sagasCache call.sagaId h.factories
    · simp [SagaEventHandler.send, finish, leave, hcache, (s.sagasCache.release_ne call.sagaId hne).1]
    · rw [SagaEventHandler.send, finish, leave, hcache] at hen
      exact MapAssertable.entries_of_release _ _ hen
    · simp [SagaEventHandler.send, finish, leave, hr, hne]
    · simpa [SagaEventHandler.send, finish, leave, hc] using
        calls_update_iff (by simp [hcall]) (by simp)

/-- A promise comes to what its saga does. -/
theorem settled (h : Agrees T s) (hcounts : Counts s) {promise' : SagaPromise I V σ}
    (hs : saga < s.sagas.length)
    (hp : ∀ promise rs ws, s.sagas[saga]? = some promise →
      Serving T s.eventStore promise rs ws → Serving T s.eventStore promise' rs ws
        ∧ promise ≠ .rejected) :
    Agrees T { s with sagas := s.sagas.set saga promise' } := by
  by_cases hen : ∃ id, s.sagasCache.entries id = some saga
  · obtain ⟨id, hid⟩ := hen
    obtain ⟨promise, rs, ws, hl⟩ := h.line id saga hid
    obtain ⟨hserving, hne⟩ := hp promise rs ws hl.sagas hl.serving
    have hl' : Line T { s with sagas := s.sagas.set saga promise' } id saga promise' rs ws := by
      refine ⟨by simp [hs], hl.requests, hl.waiters, hl.nodup, hl.mem_iff, ?_, hserving⟩
      intro c call hc hcid
      obtain ⟨h1, h2⟩ := hl.calls c call hc hcid
      exact ⟨h1, fun ha => absurd (h2 ha) hne⟩
    exact h.update hcounts (fun id' hid' => h.inj _ _ _ hid' hid)
      (fun saga' hsaga' => Option.some.inj (hsaga'.symm.trans hid)) rfl rfl (fun _ _ => rfl)
      (fun saga' hsaga' => Option.some.inj (hsaga'.symm.trans hid)) (fun _ _ => rfl)
      (fun _ _ => rfl) (fun _ saga' _ hne => List.getElem?_set_ne hne.symm)
      (fun _ _ _ => Iff.rfl) hl'
  · refine ⟨h.factories, h.idle, h.stale, h.inj, fun id saga' hid => ?_⟩
    obtain ⟨promise, rs, ws, hl⟩ := h.line id saga' hid
    have hne : saga ≠ saga' := by
      rintro rfl
      exact hen ⟨id, hid⟩
    exact ⟨promise, rs, ws, hl.frame (List.getElem?_set_ne hne) rfl rfl (fun _ _ _ => Iff.rfl)
      fun _ _ hm => hm⟩

/-- A call in line goes on, its saga made already. -/
theorem goOn (h : Agrees T s) (hcounts : Counts s') (call' : SagaCall I V)
    {promise : SagaPromise I V σ} {rs ws : List (ℕ × SagaCall I V)}
    (hid : s.sagasCache.entries call.sagaId = some saga) (hcall : s.calls c = some call)
    (hcid : call'.sagaId = call.sagaId) (hstore : s'.eventStore = s.eventStore)
    (hcache : s'.sagasCache = s.sagasCache) (hs : s'.sagas = s.sagas)
    (hr : ∀ id', id' ≠ call.sagaId → s'.requests id' = s.requests id')
    (hw : ∀ saga', saga' ≠ saga → s'.waiters saga' = s.waiters saga')
    (hc : s'.calls = Function.update s.calls c (some call'))
    (hl : Line T s' call.sagaId saga promise rs ws) : Agrees T s' := by
  have hsagas : ∀ saga', s.sagasCache.entries call.sagaId = some saga' → saga' = saga :=
    fun saga' hen => Option.some.inj (hen.symm.trans hid)
  refine h.update hcounts (fun id' hen => h.inj _ _ _ hen hid) hsagas hstore (by rw [hcache])
    (fun _ _ => by rw [hcache]) (by rw [hcache]; exact hsagas) hr hw (fun _ _ _ _ => by rw [hs]) ?_ hl
  rw [hc]
  exact calls_update_iff (by simp [hcall]) (by simpa using hcid)

end Agrees

/-- Who awaits a promise is in line for it. -/
theorem Agrees.waiter (h : Agrees T s) {saga c : ℕ} {waiters : List ℕ} {call : SagaCall I V}
    (hw : s.waiters saga = c :: waiters) (hc : s.calls c = some call) :
    s.sagasCache.entries call.sagaId = some saga ∧ ∃ promise rs ws,
      Line T s call.sagaId saga promise rs ((c, call) :: ws) ∧ ws.map Prod.fst = waiters := by
  obtain ⟨id, hid⟩ : ∃ id, s.sagasCache.entries id = some saga := by
    by_contra hne
    have := h.stale saga fun id hid => hne ⟨id, hid⟩
    simp [hw] at this
  obtain ⟨promise, rs, ws, hl⟩ := h.line id saga hid
  have hwait := hl.waiters
  rcases ws with _ | ⟨⟨c', call'⟩, ws⟩
  · simp [hw] at hwait
  · obtain ⟨rfl, rfl⟩ : c = c' ∧ waiters = ws.map Prod.fst := by simpa [hw] using hwait
    obtain ⟨hc', hcid, -⟩ := (hl.mem_iff c call').1 (by simp)
    obtain rfl : call' = call := Option.some.inj (hc'.symm.trans hc)
    exact ⟨hcid ▸ hid, promise, rs, ws, hcid ▸ hl, rfl⟩

/-- A call in flight has its saga in the cache. -/
theorem Counts.entry (hcounts : Counts s) (h : Agrees T s) {c : ℕ} {call : SagaCall I V}
    (hc : s.calls c = some call) :
    ∃ saga promise rs ws, s.sagasCache.entries call.sagaId = some saga
      ∧ Line T s call.sagaId saga promise rs ws := by
  have hhas := (hcounts.has_iff call.sagaId).2 (hcounts.pos_of_uses ⟨call, hc, rfl⟩)
  simp only [MapAssertable.has, h.factories, Option.isSome_none, Bool.or_false] at hhas
  obtain ⟨saga, hid⟩ := Option.isSome_iff_exists.1 hhas
  obtain ⟨promise, rs, ws, hl⟩ := h.line call.sagaId saga hid
  exact ⟨saga, promise, rs, ws, hid, hl⟩

/-- A call begins. -/
theorem Agrees.handle (h : Agrees T s) (hcounts : Counts s) {c : ℕ} {event : Event I V}
    {factory : SagaFactory I V} {sagaId sagaOrigin : String}
    {sagasCache : MapAssertable String ℕ (SagaFactory I V)} {sagas : List (SagaPromise I V σ)}
    {saga : ℕ} (hc : s.calls c = none) (hf : T.sagaFor event = .ok (factory, sagaId, sagaOrigin))
    (ha : s.sagasCache.assert call sagaId factory s.sagas = (sagasCache, sagas, some saga))
    (hC : Orderly T (Links T) s (.handle c event)) (hs' : s' = { s with
      delivered := s.delivered ++ [event], sagasCache, sagas
      waiters := Function.update s.waiters saga (s.waiters saga ++ [c]) }.setCall c
        { event, sagaId, sagaOrigin, saga })
    (hcounts' : Counts s') : Agrees T s' := by
  have hcalls : ∀ (c' : ℕ) (x : SagaCall I V), x.sagaId ≠ sagaId →
      (s'.calls c' = some x ↔ s.calls c' = some x) := by
    subst hs'
    exact calls_update_iff (by simp [hc]) (by simp)
  rcases hen : s.sagasCache.entries sagaId with _ | saga'
  · -- the saga is made for the call
    obtain ⟨m', ha', he, hfac⟩ := MapAssertable.assert_of_absent call factory s.sagas
      (h.factories sagaId) hen
    rw [ha'] at ha
    obtain ⟨rfl, rfl, rfl⟩ : m' = sagasCache ∧ (call factory s.sagas).1 = sagas
      ∧ (call factory s.sagas).2 = saga := by simpa using ha
    have hfresh : ∀ id, s.sagasCache.entries id ≠ some (call factory s.sagas).2 := by
      intro id hid
      obtain ⟨promise, rs, ws, hl⟩ := h.line id _ hid
      have := (List.getElem?_eq_some_iff.1 hl.sagas).1
      exact absurd this (Nat.lt_irrefl _)
    have hnone : ∀ c' x, s.calls c' = some x → x.sagaId ≠ sagaId := by
      rintro c' x hx rfl
      obtain ⟨_, _, _, _, hid, -⟩ := hcounts.entry h hx
      simp [hen] at hid
    have hl' : Line T s' sagaId s.sagas.length (.pending factory) []
        [(c, { event, sagaId, sagaOrigin, saga := s.sagas.length })] := by
      subst hs'
      have hw : s.waiters s.sagas.length = [] := h.stale _ hfresh
      exact .single hnone rfl rfl rfl (by simp [setCall, SagaEventHandler.call])
        (h.idle sagaId hen) (by simp [setCall, SagaEventHandler.call, hw]) rfl (.make hf rfl)
    subst hs'
    refine h.update hcounts' (fun id' hid => absurd hid (hfresh id')) (fun saga'' hid => ?_) rfl hfac
      (fun id' hne => ?_) (fun saga'' hid => ?_) (fun _ _ => rfl)
      (fun saga'' hne => Function.update_of_ne hne _ _) (fun id' saga'' hid _ => ?_) hcalls hl'
    · simp [hen] at hid
    · simp [setCall, he, hne]
    · simpa [setCall, he, SagaEventHandler.call, eq_comm] using hid
    · obtain ⟨promise, rs, ws, hl⟩ := h.line id' saga'' hid
      exact List.getElem?_append_left (List.getElem?_eq_some_iff.1 hl.sagas).1
  · -- the call joins those in line
    obtain ⟨m', ha', he, hfac⟩ := MapAssertable.assert_of_entry call factory s.sagas
      (h.factories sagaId) hen
    rw [ha'] at ha
    obtain ⟨rfl, rfl, rfl⟩ : m' = sagasCache ∧ s.sagas = sagas ∧ saga' = saga := by simpa using ha
    obtain ⟨promise, rs, ws, hl⟩ := h.line sagaId saga' hen
    have hne : promise ≠ .rejected → rs ++ ws ≠ [] := by
      intro hp hnil
      have hhas : s.sagasCache.has sagaId := by simp [MapAssertable.has, hen]
      obtain ⟨c₀, call₀, hc₀, hid₀⟩ := hcounts.exists_uses hhas
      have hmem := (hl.mem_iff c₀ call₀).2
        ⟨hc₀, hid₀, fun hr => hp ((hl.calls c₀ call₀ hc₀ hid₀).2 hr)⟩
      simp [hnil] at hmem
    have hlinks : promise ≠ .rejected → ∀ x ∈ (rs ++ ws).getLast?,
        Links T s.eventStore x.2 { event, sagaId, sagaOrigin, saga := saga' } := by
      intro hp x hx
      have hmem : (factory, sagaId, sagaOrigin) ∈ (T.sagaFor event).toOption := by
        rw [hf]
        rfl
      refine hC _ hmem saga' hen ?_ x.1 ?_ x.2 ?_
      · rw [hl.sagas]
        simpa using hp
      · rw [hl.requests, hl.waiters, ← List.map_append, List.getLast?_map, Option.mem_def.1 hx]
        rfl
      · exact ((hl.mem_iff x.1 x.2).1 (List.mem_of_getLast? hx)).1
    have hl' : Line T s' sagaId saga' promise rs
        (ws ++ [(c, { event, sagaId, sagaOrigin, saga := saga' })]) := by
      subst hs'
      refine hl.add hc rfl rfl rfl hl.sagas rfl ?_ rfl (hl.serving.join hne rfl hlinks)
      simp [setCall]
    have hsagas : ∀ saga'', s.sagasCache.entries sagaId = some saga'' → saga'' = saga' :=
      fun saga'' hid => Option.some.inj (hid.symm.trans hen)
    subst hs'
    refine h.update hcounts' (fun id' hid => h.inj _ _ _ hid hen) hsagas rfl hfac
      (fun _ _ => congrFun he _) (fun saga'' hid => hsagas saga'' ?_) (fun _ _ => rfl)
      (fun saga'' hne => Function.update_of_ne hne _ _) (fun _ _ _ _ => rfl) hcalls hl'
    exact (congrFun he _).symm.trans hid

theorem agrees_step {a : Action I V} (h : Agrees T s) (hcounts : Counts s)
    (hC : Orderly T (Links T) s a)
    (hm : ∀ call state, Made T s.eventStore call state → Made T s'.eventStore call state)
    (hst : step T s a = some s') : Agrees T s' := by
  have hcounts' := counts_step hcounts hst
  cases step_cases hst with
  | stored | notStored | refused => exact h.mono hm rfl rfl rfl rfl rfl
  | handle hc hf ha => exact h.handle hcounts hc hf ha hC rfl hcounts'
  | made hp hmake =>
    refine h.settled hcounts' (List.getElem?_eq_some_iff.1 hp).1 fun promise rs ws hs hserving => ?_
    obtain rfl := Option.some.inj (hp.symm.trans hs)
    exact ⟨hserving.made hmake, by simp⟩
  | failed hp =>
    refine h.settled hcounts' (List.getElem?_eq_some_iff.1 hp).1 fun promise rs ws hs hserving => ?_
    obtain rfl := Option.some.inj (hp.symm.trans hs)
    exact ⟨hserving.failed, by simp⟩
  | @acquires saga c waiters state call hw hp hc =>
    obtain ⟨hid, promise, rs, ws, hl, rfl⟩ := h.waiter hw hc
    obtain rfl := Option.some.inj (hl.sagas.symm.trans hp)
    have hl' : Line T ({ s with
        waiters := Function.update s.waiters saga (ws.map Prod.fst) }.acquire c call) call.sagaId saga
        (.resolved state) (rs ++ [(c, { call with await := .acquire })]) ws := by
      refine hl.replace rfl (List.append_cons ..).symm rfl rfl (by simp) (by simp) hp ?_ ?_ rfl
        hl.serving.acquires
      · simp [acquire, setCall, hl.requests]
      · simp [acquire, setCall]
    exact h.goOn hcounts' { call with await := .acquire } hid hc rfl rfl rfl rfl
      (fun id' hne => Function.update_of_ne hne _ _)
      (fun saga' hne => Function.update_of_ne hne _ _) rfl hl'
  | @rejected saga c waiters call hw hp hc =>
    obtain ⟨hid, promise, rs, ws, hl, rfl⟩ := h.waiter hw hc
    obtain rfl := Option.some.inj (hl.sagas.symm.trans hp)
    obtain rfl := hl.serving.rejected rfl
    have hl' : Line T ({ s with
        waiters := Function.update s.waiters saga (ws.map Prod.fst) }.setCall c
          { call with await := .rejected }) call.sagaId saga .rejected [] ws := by
      refine hl.remove rfl (fun _ => rfl) hp hl.requests ?_ (fun c' x hcc => ?_) (fun x hx => ?_)
        hl.serving.leaveRejected
      · simp [setCall]
      · simp [setCall, hcc]
      · obtain rfl : { call with await := .rejected } = x := by simpa [setCall] using hx
        exact ⟨rfl, rfl, rfl⟩
    exact h.goOn hcounts' { call with await := .rejected } hid hc rfl rfl rfl rfl (fun _ _ => rfl)
      (fun saga' hne => Function.update_of_ne hne _ _) rfl hl'
  | @acquired c call hc ha =>
    obtain ⟨saga, promise, rs, ws, hid, hl⟩ := hcounts.entry h hc
    have hturn : (s.requests call.sagaId).head? = some c := hC call hc
    rw [hl.requests] at hturn
    rcases rs with _ | ⟨⟨c', call'⟩, rs⟩
    · simp at hturn
    obtain rfl : c' = c := by simpa using hturn
    obtain ⟨hc', -, -⟩ := (hl.mem_iff c' call').1 (by simp)
    obtain rfl : call' = call := Option.some.inj (hc'.symm.trans hc)
    obtain ⟨state, rfl⟩ := hl.resolved
    have hl' : Line T (s.setCall c' { call' with await := .handle }) call'.sagaId saga
        (.resolved state) ((c', { call' with await := .handle }) :: rs) ws :=
      hl.replace (List.nil_append _).symm (List.nil_append _).symm rfl rfl (by simp) (by simp)
        hl.sagas hl.requests hl.waiters rfl (hl.serving.acquired ha)
    exact h.goOn hcounts' { call' with await := .handle } hid hc rfl rfl rfl rfl (fun _ _ => rfl)
      (fun _ _ => rfl) rfl hl'
  | acquireRejects hc ha => exact absurd hC not_false
  | @handled c call commands state hc ha hs =>
    obtain ⟨saga, promise, rs, ws, hid, hl⟩ := hcounts.entry h hc
    obtain ⟨rs, rfl⟩ := hl.working hc rfl (.inl ha)
    obtain ⟨hsaga, -⟩ := hl.calls c call hc rfl
    obtain rfl := Option.some.inj (hl.sagas.symm.trans (hsaga ▸ hs))
    have hlt := (List.getElem?_eq_some_iff.1 hs).1
    subst hsaga
    refine h.send hcounts' hid hl rfl rfl rfl rfl rfl (by simp [hlt])
      (fun saga' hne => List.getElem?_set_ne hne.symm) fun commands => hl.serving.handled ha commands
  | handleRejects hc ha => simp [Orderly] at hC
  | @sent c call command commands hc ha hcs =>
    obtain ⟨saga, promise, rs, ws, hid, hl⟩ := hcounts.entry h hc
    obtain ⟨rs, rfl⟩ := hl.working hc rfl (.inr ha)
    obtain ⟨state, rfl⟩ := hl.resolved
    exact h.send hcounts' hid hl rfl rfl rfl rfl rfl hl.sagas (fun _ _ => rfl)
      fun commands => hl.serving.sent ha commands
  | sendRejects hc ha hcs => simp [Orderly] at hC

end SagaEventHandler

end NodeCqrs
