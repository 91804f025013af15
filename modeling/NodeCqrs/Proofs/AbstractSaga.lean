import NodeCqrs.AbstractSaga

/-!
# Each event's own commands

While an event is handled no other can start, so the messages are the commands enqueued since it
started, also by the state's handlers, and by other code (`Inv`).
-/

namespace NodeCqrs.AbstractSaga

open History (Explained Since explained_nil explained_concat)

variable {I V : Type} {s s' : Sys I V} {h post : List (Entry I V)} {e : Entry I V} {c : ℕ}
  {calls : List Call} {call : Call} {event : Event I V} {command : Command I V}
  {saga : AbstractSaga I V} {methods : String → Bool}

/-- A `handle` call starts or ends. -/
def Entry.Bounds : Entry I V → Prop
  | .started _ | .returned _ _ | .failed _ => True
  | .enqueued _ | .mutated _ => False

def enqueued (h : List (Entry I V)) : List (Command I V) :=
  h.filterMap fun
    | .enqueued command => some command
    | _ => none

def mutations (h : List (Entry I V)) : ℕ :=
  h.countP fun
    | .mutated _ => true
    | _ => false

/-- The call is the last to have started or ended: it has only these entries after its start. -/
def Handling (h : List (Entry I V)) (c : ℕ) (post : List (Entry I V)) : Prop :=
  Since Entry.Bounds (fun _ => True) h (.started c) post

/-- What a call returns are the commands enqueued between its start and its end, and no other call
has started or ended in between. -/
def Ok (pre : List (Entry I V)) : Entry I V → Prop
  | .returned c commands => ∃ post, Handling pre c post ∧ commands = enqueued post
  | .failed c => ∃ post, Handling pre c post
  | .started _ | .enqueued _ | .mutated _ => True

/-- The call of `handle` has not ended. -/
def Open (calls : List Call) (c : ℕ) : Prop :=
  calls[c]? = some .handler ∨ calls[c]? = some (.mutate true)

structure Inv (s : Sys I V) : Prop where
  version : s.saga.version = mutations s.history
  idle : s.saga.handling = false → ∀ c, ¬Open s.calls c
  busy : s.saga.handling = true → ∃ c post, Handling s.history c post ∧
    s.saga.messages = enqueued post ∧ ∀ c', Open s.calls c' → c' = c
  explained : Explained Ok s.history

theorem mutations_concat : mutations (h ++ [e]) = mutations h + match e with
    | .mutated _ => 1
    | _ => 0 := by
  cases e <;> simp [mutations, List.countP_append]

theorem Handling.concat (hh : Handling h c post) (he : ¬e.Bounds) :
    Handling (h ++ [e]) c (post ++ [e]) := Since.concat hh he trivial

theorem enqueued_concat : enqueued (h ++ [e]) = enqueued h ++ match e with
    | .enqueued command => [command]
    | _ => [] := by
  cases e <;> simp [enqueued]

theorem inv_init : Inv ({} : Sys I V) where
  version := rfl
  idle := by simp [Open]
  busy := nofun
  explained := explained_nil

/-- What runs enqueues a command. -/
theorem Inv.enqueue (hi : Inv s) {result : Except String (AbstractSaga I V)}
    (hresult : ∀ saga, result = .ok saga → saga = { s.saga with
      messages := s.saga.messages ++ [command] }) : Inv (s.enqueue result command) := by
  unfold Sys.enqueue
  rcases hr : result with error | saga
  · exact hi
  obtain rfl := hresult saga hr
  refine ⟨?_, hi.idle, fun hb => ?_, explained_concat.2 ⟨hi.explained, trivial⟩⟩
  · rw [mutations_concat]
    exact hi.version
  · obtain ⟨c, post, hh, hm, hopen⟩ := hi.busy hb
    refine ⟨c, _, hh.concat nofun, ?_, hopen⟩
    rw [enqueued_concat, hm]

theorem enqueueRaw_eq (h : s.saga.enqueueRaw command = .ok saga) :
    saga = { s.saga with messages := s.saga.messages ++ [command] } := by
  unfold enqueueRaw assertMessage at h
  split_ifs at h
  · exact (Except.ok.inj h).symm
  · cases h

theorem handle_eq (h : s.saga.handle methods event = .ok saga) :
    s.saga.handling = false ∧ saga = { s.saga with handling := true, messages := [] } := by
  unfold handle at h
  rcases hevent : assertEvent event "event" with error | _ <;> rw [hevent] at h
  · cases h
  rcases hb : s.saga.handling with _ | _ <;> rw [hb] at h
  · rcases hmethod : assertFunction (getOptionalHandler methods event.type)
      (event.type ++ " handler") with error | _ <;> rw [hmethod] at h
    · cases h
    · exact ⟨rfl, (Except.ok.inj h).symm⟩
  · cases h

theorem open_concat (ho : Open (calls ++ [call]) c) :
    Open calls c ∨ c = calls.length ∧ call ≠ .mutate false ∧ call ≠ .ended := by
  unfold Open at ho ⊢
  rw [List.getElem?_append] at ho
  split_ifs at ho with hlt
  · exact .inl ho
  · refine .inr ?_
    rcases hc : c - calls.length with _ | n <;> rw [hc] at ho
    · refine ⟨by omega, ?_⟩
      rcases ho with ho | ho <;> cases ho <;> exact ⟨nofun, nofun⟩
    · simp at ho

theorem open_set {c' : ℕ} (ho : Open (calls.set c call) c') :
    c' ≠ c ∧ Open calls c' ∨ c' = c ∧ call ≠ .ended := by
  unfold Open at ho ⊢
  rw [List.getElem?_set] at ho
  split_ifs at ho with hc hlt
  · refine .inr ⟨hc.symm, ?_⟩
    rcases ho with ho | ho <;> cases ho <;> exact nofun
  · simp at ho
  · exact .inl ⟨Ne.symm hc, ho⟩

theorem open_of_concat (ho : Open (calls ++ [call]) c) (hc : call = .mutate false ∨ call = .ended) :
    Open calls c := by
  rcases open_concat ho with ho | ⟨-, hm, he⟩
  · exact ho
  · rcases hc with rfl | rfl
    · exact absurd rfl hm
    · exact absurd rfl he

theorem Inv.ofCalls (hi : Inv s) (hopen : ∀ c, Open calls c → Open s.calls c) :
    Inv { s with calls } := by
  refine ⟨hi.version, fun hb c ho => hi.idle hb c (hopen c ho), fun hb => ?_, hi.explained⟩
  obtain ⟨c, post, hh, hm, hall⟩ := hi.busy hb
  exact ⟨c, post, hh, hm, fun c' ho => hall c' (hopen c' ho)⟩

/-- A mutation completes. -/
theorem Inv.mutated (hi : Inv s) (c : ℕ) :
    Inv { s with saga := s.saga.mutated, history := s.history ++ [.mutated c] } := by
  refine ⟨?_, hi.idle, fun hb => ?_, explained_concat.2 ⟨hi.explained, trivial⟩⟩
  · rw [mutations_concat]
    exact congrArg (· + 1) hi.version
  · obtain ⟨c', post, hh, hm, hall⟩ := hi.busy hb
    refine ⟨c', _, hh.concat nofun, ?_, hall⟩
    rw [enqueued_concat, List.append_nil]
    exact hm

/-- The call that is open is the one handled. -/
theorem Inv.handling (hi : Inv s) (ho : Open s.calls c) : ∃ post, Handling s.history c post ∧
    s.saga.messages = enqueued post ∧ ∀ c', Open s.calls c' → c' = c := by
  rcases hb : s.saga.handling with _ | _
  · exact absurd ho (hi.idle hb c)
  · obtain ⟨c', post, hh, hm, hall⟩ := hi.busy hb
    obtain rfl := hall c ho
    exact ⟨post, hh, hm, hall⟩

/-- The call of `handle` ends. -/
theorem Inv.ended (hi : Inv s) (ho : Open s.calls c) (messages : List (Command I V))
    (he : e = .failed c ∨ e = .returned c s.saga.messages) :
    Inv { saga := { s.saga with messages, handling := false }
          calls := s.calls.set c .ended
          history := s.history ++ [e] } := by
  obtain ⟨post, hh, hm, hall⟩ := hi.handling ho
  refine ⟨?_, fun _ c' ho' => ?_, nofun, explained_concat.2 ⟨hi.explained, ?_⟩⟩
  · rw [mutations_concat]
    rcases he with rfl | rfl <;> exact hi.version
  · rcases open_set ho' with ⟨hne, ho'⟩ | ⟨-, he⟩
    · exact hne (hall c' ho')
    · exact he rfl
  · rcases he with rfl | rfl
    · exact ⟨post, hh⟩
    · exact ⟨post, hh, hm⟩

theorem inv_step {a : Action I V} (hi : Inv s) (hst : step methods s a = some s') : Inv s' := by
  cases a with
  | enqueueRaw command =>
    obtain rfl := Option.some.inj hst
    exact hi.enqueue fun saga => enqueueRaw_eq
  | enqueue commandType aggregateId payload =>
    obtain rfl := Option.some.inj hst
    refine hi.enqueue fun saga hs => ?_
    unfold enqueue assertString at hs
    split_ifs at hs
    · cases hs
    · exact enqueueRaw_eq hs
  | mutate event =>
    simp only [step] at hst
    split at hst <;> obtain rfl := Option.some.inj hst
    · exact hi.ofCalls fun c ho => open_of_concat ho (.inl rfl)
    · exact hi.ofCalls fun c ho => open_of_concat ho (.inr rfl)
  | handle event =>
    simp only [step] at hst
    split at hst <;> obtain rfl := Option.some.inj hst
    · next saga hsaga =>
      obtain ⟨hb, rfl⟩ := handle_eq hsaga
      refine ⟨?_, nofun, fun _ => ⟨_, [], .new trivial, rfl, fun c ho => ?_⟩,
        explained_concat.2 ⟨hi.explained, trivial⟩⟩
      · rw [mutations_concat]
        exact hi.version
      · rcases open_concat ho with ho | ⟨hc, -⟩
        · exact absurd ho (hi.idle hb c)
        · exact hc
    · exact hi.ofCalls fun c ho => open_of_concat ho (.inr rfl)
  | handler c throws =>
    simp only [step] at hst
    split at hst
    · next hc =>
      split_ifs at hst <;> obtain rfl := Option.some.inj hst
      · exact hi.ended (.inl hc) s.saga.messages (.inl rfl)
      · refine hi.ofCalls fun c' ho => ?_
        rcases open_set ho with ⟨-, ho⟩ | ⟨rfl, -⟩
        · exact ho
        · exact .inl hc
    · cases hst
  | applied c throws =>
    have hended : ∀ c', Open (s.calls.set c .ended) c' → Open s.calls c' := fun c' ho => by
      rcases open_set ho with ⟨-, ho⟩ | ⟨-, he⟩
      · exact ho
      · exact absurd rfl he
    simp only [step] at hst
    split at hst
    · next hc =>
      split_ifs at hst <;> obtain rfl := Option.some.inj hst
      · exact hi.ended (.inr hc) s.saga.messages (.inl rfl)
      · have hreturned := (hi.mutated c).ended (.inr hc) [] (.inr rfl)
        rw [List.append_assoc] at hreturned
        exact hreturned
    · split_ifs at hst <;> obtain rfl := Option.some.inj hst
      · exact hi.ofCalls hended
      · exact (hi.mutated c).ofCalls hended
    · cases hst

/-- In every run, a `handle` that succeeds returns the commands enqueued between its own start and
end, in their order, with no other call's start or end in between; and the version counts the
mutations that have completed. -/
theorem isolated {l : List (Action I V)} (h : (machine I V methods).run {} l = some s) :
    Explained Ok s.history ∧ s.saga.version = mutations s.history := by
  have hi : Inv s := Machine.run_keeps (M := machine I V methods)
    (fun _ _ _ hi hst => inv_step hi hst) inv_init h
  exact ⟨hi.explained, hi.version⟩

section Runs

def placed : Event ℕ ℕ := { type := "placed", payload := 0 }

def order (type : String) : Command ℕ ℕ := { type, payload := 0 }

/-- A handler enqueues a command and throws. Of the next two calls, which overlap, one is rejected;
the state's handler enqueues a command too. -/
theorem isolated_failed : ∃ s, (machine ℕ ℕ (· = "_placed")).run {} [.mutate placed,
      .enqueue "early" none 0, .applied 0 false, .handle placed, .enqueueRaw (order "lost"),
      .handler 1 true, .handle placed, .handle placed, .enqueueRaw (order "pay"),
      .handler 2 false, .enqueueRaw (order "ship"), .applied 2 false] = some s
    ∧ s.saga = { version := 2 }
    ∧ s.history.getLast? = some (.returned 2 [order "pay", order "ship"])
    ∧ Explained Ok s.history := by
  have hrun : (machine ℕ ℕ (· = "_placed")).run {} [.mutate placed,
      .enqueue "early" none 0, .applied 0 false, .handle placed, .enqueueRaw (order "lost"),
      .handler 1 true, .handle placed, .handle placed, .enqueueRaw (order "pay"),
      .handler 2 false, .enqueueRaw (order "ship"), .applied 2 false] = some _ := rfl
  exact ⟨_, hrun, rfl, rfl, (isolated hrun).1⟩

end Runs

end NodeCqrs.AbstractSaga
