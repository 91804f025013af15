import Mathlib.Data.List.Chain
import NodeCqrs.SagaEventHandler

/-!
# The calls in line for one saga

The calls in flight for a saga share an instance: first those that have asked for the lock, then
those that await the instance. What is kept while they come and go is that the instance stands where
the first of them needs it, and that each call leaves it where the next one does (`Serving`).
-/

namespace NodeCqrs

namespace SagaEventHandler

variable {I V σ D : Type} {T : SagaOptions I V σ D} {eventStore : D}

/-- The state the call's event is to be handled on: what its factory makes of the store. -/
def Made (T : SagaOptions I V σ D) (eventStore : D) (call : SagaCall I V) (state : σ) : Prop :=
  ∃ factory, T.sagaFor call.event = .ok (factory, call.sagaId, call.sagaOrigin)
    ∧ T.make eventStore factory = .ok state

/-- The first call leaves the saga where the second needs it. -/
def Links (T : SagaOptions I V σ D) (eventStore : D) (call call' : SagaCall I V) : Prop :=
  ∃ state, Made T eventStore call state ∧ Made T eventStore call' (T.mutate state call.event)

/-- The instance is where the first call in line needs it, or has left it. -/
def Stands (T : SagaOptions I V σ D) (eventStore : D) (call : SagaCall I V) (state : σ) : Prop :=
  if call.await = .send then
    ∃ before, Made T eventStore call before ∧ state = T.mutate before call.event
  else Made T eventStore call state

/-- The call as it began. -/
def start (call : SagaCall I V) : SagaCall I V := { call with await := .saga, commands := [] }

theorem Made.unique {call : SagaCall I V} {state state' : σ} (h : Made T eventStore call state)
    (h' : Made T eventStore call state') : state = state' := by
  obtain ⟨factory, hf, hm⟩ := h
  obtain ⟨factory', hf', hm'⟩ := h'
  rw [hf, Except.ok.injEq, Prod.mk.injEq] at hf'
  rw [hf'.1, hm'] at hm
  exact (Except.ok.inj hm).symm

theorem stands_iff {call : SagaCall I V} {state : σ} (ha : call.await ≠ .send) :
    Stands T eventStore call state ↔ Made T eventStore call state := by
  simp [Stands, ha]

theorem stands_send_iff {call : SagaCall I V} {state : σ} (ha : call.await = .send) :
    Stands T eventStore call state ↔
      ∃ before, Made T eventStore call before ∧ state = T.mutate before call.event := by
  simp [Stands, ha]

/-- The calls `rs` have asked for the lock and the calls `ws` await the promise. -/
structure Serving (T : SagaOptions I V σ D) (eventStore : D) (promise : SagaPromise I V σ)
    (rs ws : List (ℕ × SagaCall I V)) : Prop where
  waiting : ∀ x ∈ ws, x.2.await = .saga
  first : ∀ x ∈ rs.head?, x.2.await = .acquire ∨ x.2.await = .handle ∨ x.2.await = .send
  behind : ∀ x ∈ rs.tail, x.2.await = .acquire
  pending : ∀ factory, promise = .pending factory → rs = [] ∧ ∃ x ∈ ws.head?,
    T.sagaFor x.2.event = .ok (factory, x.2.sagaId, x.2.sagaOrigin)
  rejected : promise = .rejected → rs = []
  resolved : ∀ state, promise = .resolved state →
    ∀ x ∈ (rs ++ ws).head?, Stands T eventStore x.2 state
  chain : promise ≠ .rejected → ((rs ++ ws).map fun x => start x.2).IsChain (Links T eventStore)

namespace Serving

variable {promise : SagaPromise I V σ} {rs ws : List (ℕ × SagaCall I V)} {c : ℕ}
  {call : SagaCall I V} {state : σ} {factory : SagaFactory I V}

/-- A call has its saga made. -/
theorem make (hf : T.sagaFor call.event = .ok (factory, call.sagaId, call.sagaOrigin))
    (ha : call.await = .saga) : Serving T eventStore (.pending factory) [] [(c, call)] where
  waiting x hx := by
    obtain rfl := List.mem_singleton.1 hx
    exact ha
  first x hx := by simp at hx
  behind x hx := by simp at hx
  pending factory' hp := by
    obtain rfl := SagaPromise.pending.inj hp
    exact ⟨rfl, (c, call), by simp, hf⟩
  rejected hp := by simp at hp
  resolved state hp := by simp at hp
  chain _ := by simp

/-- A call joins the others. -/
theorem join (h : Serving T eventStore promise rs ws) (hne : promise ≠ .rejected → rs ++ ws ≠ [])
    (ha : call.await = .saga) (hl : promise ≠ .rejected →
      ∀ x ∈ (rs ++ ws).getLast?, Links T eventStore x.2 call) :
    Serving T eventStore promise rs (ws ++ [(c, call)]) where
  waiting x hx := by
    rcases List.mem_append.1 hx with hx | hx
    · exact h.waiting x hx
    · obtain rfl := List.mem_singleton.1 hx
      exact ha
  first := h.first
  behind := h.behind
  pending factory hp := by
    obtain ⟨hrs, x, hx, hf⟩ := h.pending factory hp
    exact ⟨hrs, x, by simp_all [List.head?_append], hf⟩
  rejected := h.rejected
  resolved state hp x hx := by
    refine h.resolved state hp x ?_
    rw [← List.append_assoc, List.head?_append_of_ne_nil _ (hne (by simp [hp]))] at hx
    exact hx
  chain hp := by
    rw [← List.append_assoc, List.map_append, List.isChain_append]
    refine ⟨h.chain hp, by simp, ?_⟩
    intro x hx y hy
    rw [List.getLast?_map] at hx
    obtain ⟨x', hx', rfl⟩ := Option.map_eq_some_iff.1 hx
    obtain rfl : start call = y := by simpa using hy
    exact hl hp x' hx'

/-- The saga is made. -/
theorem made (h : Serving T eventStore (.pending factory) rs ws)
    (hm : T.make eventStore factory = .ok state) :
    Serving T eventStore (.resolved state) rs ws where
  waiting := h.waiting
  first := h.first
  behind := h.behind
  pending factory' hp := by simp at hp
  rejected hp := by simp at hp
  resolved state' hp x hx := by
    obtain rfl := SagaPromise.resolved.inj hp
    obtain ⟨rfl, y, hy, hf⟩ := h.pending factory rfl
    obtain rfl : y = x := by simpa [Option.mem_def.1 hy] using hx
    have ha : y.2.await = .saga := h.waiting y (List.mem_of_mem_head? hy)
    exact (stands_iff (by simp [ha])).2 ⟨factory, hf, hm⟩
  chain _ := h.chain (by simp)

theorem failed (h : Serving T eventStore (.pending factory) rs ws) :
    Serving T eventStore .rejected rs ws where
  waiting := h.waiting
  first := h.first
  behind := h.behind
  pending factory' hp := by simp at hp
  rejected _ := (h.pending factory rfl).1
  resolved state' hp := by simp at hp
  chain hp := absurd rfl hp

/-- The first call that awaits the saga asks for its lock. -/
theorem acquires (h : Serving T eventStore (.resolved state) rs ((c, call) :: ws)) :
    Serving T eventStore (.resolved state) (rs ++ [(c, { call with await := .acquire })]) ws where
  waiting x hx := h.waiting x (List.mem_cons_of_mem _ hx)
  first x hx := by
    cases rs with
    | nil =>
      obtain rfl : (c, _) = x := by simpa using hx
      exact .inl rfl
    | cons r rs => exact h.first x (by simpa using hx)
  behind x hx := by
    cases rs with
    | nil => simp at hx
    | cons r rs =>
      rw [List.cons_append, List.tail_cons] at hx
      rcases List.mem_append.1 hx with hx | hx
      · exact h.behind x (by simpa using hx)
      · obtain rfl := List.mem_singleton.1 hx
        rfl
  pending factory' hp := by simp at hp
  rejected hp := by simp at hp
  resolved state' hp x hx := by
    cases rs with
    | nil =>
      obtain rfl : (c, _) = x := by simpa using hx
      have hs := h.resolved state' hp (c, call) (by simp)
      have ha : call.await = .saga := h.waiting (c, call) List.mem_cons_self
      have hm : Made T eventStore call state' := (stands_iff (by simp [ha])).1 hs
      exact (stands_iff (by simp)).2 hm
    | cons r rs => exact h.resolved state' hp x (by simpa using hx)
  chain hp := by simpa [start] using h.chain hp

/-- A call finds that its saga could not be made. -/
theorem leaveRejected {x : ℕ × SagaCall I V} (h : Serving T eventStore .rejected rs (x :: ws)) :
    Serving T eventStore .rejected rs ws where
  waiting y hy := h.waiting y (List.mem_cons_of_mem _ hy)
  first := h.first
  behind := h.behind
  pending factory' hp := by simp at hp
  rejected := h.rejected
  resolved state' hp := by simp at hp
  chain hp := absurd rfl hp

/-- The first call in line goes on, and the instance with it. -/
theorem goOn (h : Serving T eventStore (.resolved state) ((c, call) :: rs) ws)
    {call' : SagaCall I V} {state' : σ} (hstart : start call' = start call)
    (ha : call'.await = .handle ∨ call'.await = .send)
    (hs : Stands T eventStore call' state') :
    Serving T eventStore (.resolved state') ((c, call') :: rs) ws where
  waiting := h.waiting
  first x hx := by
    obtain rfl : (c, call') = x := by simpa using hx
    exact .inr ha
  behind := h.behind
  pending factory' hp := by simp at hp
  rejected hp := by simp at hp
  resolved state'' hp x hx := by
    obtain rfl := SagaPromise.resolved.inj hp
    obtain rfl : (c, call') = x := by simpa using hx
    exact hs
  chain _ := by simpa [hstart] using h.chain (by simp)

/-- The first call in line has been granted its lock. -/
theorem acquired (h : Serving T eventStore (.resolved state) ((c, call) :: rs) ws)
    (ha : call.await = .acquire) :
    Serving T eventStore (.resolved state) ((c, { call with await := .handle }) :: rs) ws := by
  have hm : Made T eventStore call state :=
    (stands_iff (by simp [ha])).1 (h.resolved state rfl (c, call) (by simp))
  exact h.goOn rfl (.inl rfl) ((stands_iff (by simp)).2 hm)

/-- It has handled its event, which the instance has applied. -/
theorem handled (h : Serving T eventStore (.resolved state) ((c, call) :: rs) ws)
    (ha : call.await = .handle) (commands : List (Command I V)) :
    Serving T eventStore (.resolved (T.mutate state call.event))
      ((c, { call with await := .send, commands }) :: rs) ws := by
  have hm : Made T eventStore call state :=
    (stands_iff (by simp [ha])).1 (h.resolved state rfl (c, call) (by simp))
  exact h.goOn rfl (.inr rfl) ((stands_send_iff rfl).2 ⟨state, hm, rfl⟩)

/-- It has sent a command. -/
theorem sent (h : Serving T eventStore (.resolved state) ((c, call) :: rs) ws)
    (ha : call.await = .send) (commands : List (Command I V)) :
    Serving T eventStore (.resolved state)
      ((c, { call with await := .send, commands }) :: rs) ws := by
  obtain ⟨before, hm, hst⟩ := (stands_send_iff ha).1 (h.resolved state rfl (c, call) (by simp))
  exact h.goOn rfl (.inr rfl) ((stands_send_iff rfl).2 ⟨before, hm, hst⟩)

/-- It has sent its commands, and the next one is the first in line. -/
theorem leave (h : Serving T eventStore (.resolved state) ((c, call) :: rs) ws)
    (ha : call.await = .send) : Serving T eventStore (.resolved state) rs ws where
  waiting := h.waiting
  first x hx := .inl (h.behind x (List.mem_of_mem_head? hx))
  behind x hx := h.behind x (List.mem_of_mem_tail hx)
  pending factory' hp := by simp at hp
  rejected hp := by simp at hp
  resolved state' hp x hx := by
    obtain rfl := SagaPromise.resolved.inj hp
    obtain ⟨before, hb, hst⟩ := (stands_send_iff ha).1 (h.resolved state rfl (c, call) (by simp))
    have hc := h.chain (by simp)
    rw [List.cons_append, List.map_cons] at hc
    obtain ⟨before', hb', hm⟩ : Links T eventStore (start call) (start x.2) := by
      refine hc.rel_head? ?_
      rw [List.head?_map, Option.mem_def.1 hx]
      rfl
    obtain rfl : before' = before := hb'.unique hb
    have hxa : x.2.await ≠ .send := by
      rcases rs with _ | ⟨r, rs⟩
      · simp [h.waiting x (List.mem_of_mem_head? hx)]
      · obtain rfl : r = x := by simpa using hx
        simp [h.behind r (by simp)]
    exact (stands_iff hxa).2 (hst ▸ hm)
  chain hp := by
    have hc := h.chain hp
    rw [List.cons_append, List.map_cons] at hc
    exact hc.tail

theorem mono (h : Serving T eventStore promise rs ws) {eventStore' : D}
    (hm : ∀ call state, Made T eventStore call state → Made T eventStore' call state) :
    Serving T eventStore' promise rs ws where
  waiting := h.waiting
  first := h.first
  behind := h.behind
  pending := h.pending
  rejected := h.rejected
  resolved state hp x hx := by
    have hs := h.resolved state hp x hx
    by_cases ha : x.2.await = .send
    · obtain ⟨before, hb, hst⟩ := (stands_send_iff ha).1 hs
      exact (stands_send_iff ha).2 ⟨before, hm _ _ hb, hst⟩
    · exact (stands_iff ha).2 (hm _ _ ((stands_iff ha).1 hs))
  chain hp := (h.chain hp).imp fun _ _ ⟨before, hb, ha⟩ => ⟨before, hm _ _ hb, hm _ _ ha⟩

end Serving

end SagaEventHandler

end NodeCqrs
