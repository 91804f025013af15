import NodeCqrs.Workers.Restore

/-!
# Batches and single events

Both restores project a list of events one after another up to the first that throws
(`projecting`), so how it is cut into batches makes no difference (`restore_agrees`). Where the
stream itself throws, what is in the batch then is not projected (`restoreStream_interrupted`).
-/

namespace NodeCqrs

variable {E ε σ : Type} (P : WorkerProjection E ε σ)

/-- The worker's state and the events that `_project` was called with. -/
def Restoring.worker (restoring : Restoring E σ) : σ × List E :=
  (restoring.state, restoring.projected)

/-- `_project` of the events, one by one. -/
def projecting (worker : σ × List E) : List E → (σ × List E) × Except ε Unit
  | [] => (worker, .ok ())
  | event :: events =>
    match (P.project event).run worker.1 with
    | (.ok (), state) => projecting (state, worker.2 ++ [event]) events
    | (.error error, state) => ((state, worker.2 ++ [event]), .error error)

variable {P} {restoring restoring' : Restoring E σ} {result : Except ε Unit}

theorem projecting_append {events' : List E} : ∀ {events : List E} {worker : σ × List E},
    projecting P worker (events ++ events') = match projecting P worker events with
      | (worker, .ok ()) => projecting P worker events'
      | (worker, .error error) => (worker, .error error)
  | [], _ => rfl
  | event :: events, worker => by
    rw [List.cons_append, projecting, projecting]
    rcases (P.project event).run worker.1 with ⟨_ | ⟨⟩, state⟩
    · rfl
    · exact projecting_append

theorem AbstractProjection.restoreEvents_worker : ∀ {events : List E}
    {restoring restoring' : Restoring E σ},
    AbstractProjection.restoreEvents P restoring events = (restoring', result) →
      projecting P restoring.worker events = (restoring'.worker, result)
  | [], _, _, h => by
    obtain ⟨rfl, rfl⟩ := Prod.mk.inj h
    rfl
  | event :: events, restoring, _, h => by
    rw [restoreEvents, WorkerProjection.projects] at h
    rw [projecting, Restoring.worker]
    rcases hp : (P.project event).run restoring.state with ⟨_ | ⟨⟩, state⟩ <;> rw [hp] at h
    · obtain ⟨rfl, rfl⟩ := Prod.mk.inj h
      rfl
    · exact restoreEvents_worker h

/-- A batch is projected event by event, and is what was sent. -/
theorem AbstractWorkerProjection.projectBatch_worker : ∀ {events : List E}
    {restoring restoring' : Restoring E σ},
    AbstractWorkerProjection.projectBatch P restoring events = (restoring', result) →
      projecting P restoring.worker events = (restoring'.worker, result)
        ∧ restoring'.sent = restoring.sent
  | [], _, _, h => by
    obtain ⟨rfl, rfl⟩ := Prod.mk.inj h
    exact ⟨rfl, rfl⟩
  | event :: events, restoring, _, h => by
    rw [projectBatch, WorkerProjection.projects] at h
    rw [projecting, Restoring.worker]
    rcases hp : (P.project event).run restoring.state with ⟨_ | ⟨⟩, state⟩ <;> rw [hp] at h
    · obtain ⟨rfl, rfl⟩ := Prod.mk.inj h
      exact ⟨rfl, rfl⟩
    · exact projectBatch_worker h

namespace WorkerProxyProjection

variable {RESTORE_BATCH_SIZE : ℕ}

theorem projectBatch_worker (h : projectBatch P restoring = (restoring', result)) :
    projecting P restoring.worker restoring.batch = (restoring'.worker, result)
      ∧ restoring'.sent = restoring.sent ++ [restoring.batch] :=
  AbstractWorkerProjection.projectBatch_worker h

/-- No batch that was sent is empty. -/
def Filled (restoring : Restoring E σ) : Prop := ∀ batch ∈ restoring.sent, batch ≠ []

theorem Filled.projectBatch (hf : Filled restoring) (hb : restoring.batch ≠ [])
    (h : projectBatch P restoring = (restoring', result)) : Filled restoring' := by
  intro batch hbatch
  rw [(projectBatch_worker h).2] at hbatch
  rcases List.mem_append.1 hbatch with hbatch | hbatch
  · exact hf batch hbatch
  · exact List.mem_singleton.1 hbatch ▸ hb

/-- The loop has projected all but the events in the batch, or it has stopped at one. -/
theorem restoreEvents_worker : ∀ {events : List E} {restoring restoring' : Restoring E σ},
    restoreEvents P RESTORE_BATCH_SIZE restoring events = (restoring', result) →
      Filled restoring → ∃ todo rest, restoring.batch ++ events = todo ++ rest
        ∧ projecting P restoring.worker todo = (restoring'.worker, result) ∧ Filled restoring'
        ∧ (result = .ok () → restoring'.batch = rest)
  | [], restoring, _, h, hf => by
    obtain ⟨rfl, rfl⟩ := Prod.mk.inj h
    exact ⟨[], restoring.batch, by simp, rfl, hf, fun _ => rfl⟩
  | event :: events, restoring, restoring', h, hf => by
    rw [restoreEvents] at h
    have hsplit : restoring.batch ++ event :: events
        = (restoring.batch ++ [event]) ++ events := by simp
    split_ifs at h
    · rcases hbatch : projectBatch P { restoring with batch := restoring.batch ++ [event] } with
        ⟨sent, _ | ⟨⟩⟩
      · rw [hbatch] at h
        obtain ⟨rfl, rfl⟩ := Prod.mk.inj h
        exact ⟨_, events, hsplit, (projectBatch_worker hbatch).1,
          Filled.projectBatch (by exact hf) (by simp) hbatch, by simp⟩
      · rw [hbatch] at h
        have hsent : Filled sent := Filled.projectBatch (by exact hf) (by simp) hbatch
        have hsent' : Filled { sent with batch := [] } := hsent
        have hdone : projecting P restoring.worker (restoring.batch ++ [event])
            = (sent.worker, .ok ()) := (projectBatch_worker hbatch).1
        obtain ⟨todo, rest, hcut, hrun, hf', hrest⟩ :=
          restoreEvents_worker h hsent'
        refine ⟨restoring.batch ++ [event] ++ todo, rest, ?_, ?_, hf', hrest⟩
        · rw [hsplit, List.append_assoc _ todo, ← hcut, List.nil_append]
        · rw [projecting_append, hdone]
          exact hrun
    · obtain ⟨todo, rest, hcut, hrest⟩ := restoreEvents_worker h hf
      exact ⟨todo, rest, hsplit.trans hcut, hrest⟩

theorem restoreEvents_batch_lt (hsize : 0 < RESTORE_BATCH_SIZE) : ∀ {events : List E}
    {restoring restoring' : Restoring E σ},
    restoreEvents P RESTORE_BATCH_SIZE restoring events = (restoring', .ok ()) →
      restoring.batch.length < RESTORE_BATCH_SIZE → restoring'.batch.length < RESTORE_BATCH_SIZE
  | [], _, _, h, hlt => by
    obtain ⟨rfl, -⟩ := Prod.mk.inj h
    exact hlt
  | event :: events, restoring, _, h, _ => by
    rw [restoreEvents] at h
    split_ifs at h with hfull
    · split at h
      · exact restoreEvents_batch_lt hsize h hsize
      · exact absurd (Prod.mk.inj h).2 (by simp)
    · exact restoreEvents_batch_lt hsize h (Nat.lt_of_not_le hfull)

/-- A stream that throws has the restore throw with a batch not yet full, which is not projected. -/
theorem restoreStream_interrupted {events : List E} {error : ε} {state : σ}
    (hsize : 0 < RESTORE_BATCH_SIZE)
    (hok : (projecting P (state, []) events).2 = .ok ())
    (h : restoreStream P RESTORE_BATCH_SIZE { state } { events, failure := some error }
      = (restoring', result)) :
    result = .error error ∧ ∃ todo rest, events = todo ++ rest ∧ rest.length < RESTORE_BATCH_SIZE
      ∧ projecting P (state, []) todo = (restoring'.worker, .ok ()) := by
  rw [restoreStream] at h
  rcases hloop : restoreEvents P RESTORE_BATCH_SIZE { state } events with ⟨looped, error' | ⟨⟩⟩
  all_goals
    obtain ⟨todo, rest, hcut, hrun, -, hrest⟩ :=
      restoreEvents_worker hloop (by simp [Filled])
    obtain rfl : events = todo ++ rest := hcut
  · have hstop : projecting P (state, []) todo = (looped.worker, .error error') := hrun
    rw [projecting_append, hstop] at hok
    cases hok
  · rw [hloop] at h
    obtain ⟨rfl, rfl⟩ := Prod.mk.inj h
    obtain rfl := hrest rfl
    exact ⟨rfl, todo, looped.batch, rfl, restoreEvents_batch_lt hsize hloop hsize, hrun⟩

/-- What the loop leaves in the batch is projected after it, or stopped before. -/
theorem restoreStream_worker {events : List E}
    (h : restoreStream P RESTORE_BATCH_SIZE restoring { events } = (restoring', result))
    (hf : Filled restoring) :
    projecting P restoring.worker (restoring.batch ++ events) = (restoring'.worker, result)
      ∧ Filled restoring' := by
  rw [restoreStream] at h
  rcases hloop : restoreEvents P RESTORE_BATCH_SIZE restoring events with ⟨looped, error | ⟨⟩⟩
  all_goals
    rw [hloop] at h
    obtain ⟨todo, rest, hcut, hrun, hf', hrest⟩ := restoreEvents_worker hloop hf
    rw [hcut, projecting_append, hrun]
  · obtain ⟨rfl, rfl⟩ := Prod.mk.inj h
    exact ⟨rfl, hf'⟩
  · obtain rfl := hrest rfl
    dsimp only at h
    split_ifs at h with hb
    · exact ⟨(projectBatch_worker h).1, hf'.projectBatch (by simpa using hb) h⟩
    · obtain ⟨rfl, rfl⟩ := Prod.mk.inj h
      have hnil : looped.batch = [] := by simpa using hb
      exact ⟨by rw [hnil]; rfl, hf'⟩

end WorkerProxyProjection

theorem AbstractProjection.restoreStream_worker {events : List E}
    (h : restoreStream P restoring { events } = (restoring', result)) :
    projecting P restoring.worker events = (restoring'.worker, result) := by
  rw [restoreStream] at h
  rcases hloop : restoreEvents P restoring events with ⟨looped, error | ⟨⟩⟩ <;> rw [hloop] at h <;>
    obtain ⟨rfl, rfl⟩ := Prod.mk.inj h <;> exact restoreEvents_worker hloop

/-- The restore in batches has `_project` called with the events that the loop over single ones
does, to the same state and the same error, and sends no empty batch. -/
theorem WorkerProxyProjection.restore_agrees (P : WorkerProjection E ε σ) (RESTORE_BATCH_SIZE : ℕ)
    (getEventsByTypes : Option E → List E) (state : σ) :
    let stream : Option E → RestoreStream E ε := fun lastEvent =>
      { events := getEventsByTypes lastEvent }
    let batched := WorkerProxyProjection.restore P RESTORE_BATCH_SIZE stream state
    let single := AbstractProjection.restoreLoop P stream state
    batched.1.projected = single.1.projected ∧ batched.1.state = single.1.state
      ∧ batched.2 = single.2 ∧ ∀ batch ∈ batched.1.sent, batch ≠ [] := by
  dsimp only
  rw [WorkerProxyProjection.restore, AbstractProjection.restoreLoop]
  rcases P.getLastProjectedEvent.run state with ⟨error | lastEvent, state⟩
  · exact ⟨rfl, rfl, rfl, by simp⟩
  · have hfilled : WorkerProxyProjection.Filled ({ state } : Restoring E σ) := by
      simp [WorkerProxyProjection.Filled]
    dsimp only
    rcases hb : WorkerProxyProjection.restoreStream P RESTORE_BATCH_SIZE { state }
      { events := getEventsByTypes lastEvent } with ⟨batched, result⟩
    rcases hs : AbstractProjection.restoreStream P { state }
      { events := getEventsByTypes lastEvent } with ⟨single, result'⟩
    obtain ⟨hbatched, hsent⟩ := WorkerProxyProjection.restoreStream_worker hb hfilled
    have hsingle := AbstractProjection.restoreStream_worker hs
    obtain ⟨hworker, hresult⟩ := Prod.mk.inj (hbatched.symm.trans hsingle)
    obtain ⟨hstate, hprojected⟩ := Prod.mk.inj hworker
    exact ⟨hprojected, hstate, hresult, hsent⟩

/-- Handlers that add up the events and throw on 5. -/
def summing : WorkerProjection ℕ String ℕ where
  getHandler event := .ok (if event = 5 then throw "boom" else modify (· + event))

example : (WorkerProxyProjection.restore summing 2 (fun _ => { events := [1, 2, 3, 5, 6] }) 0).1
    = { state := 6, projected := [1, 2, 3, 5], batch := [3, 5], sent := [[1, 2], [3, 5]] } := rfl

end NodeCqrs
