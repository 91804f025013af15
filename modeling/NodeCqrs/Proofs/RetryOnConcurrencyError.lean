import NodeCqrs.RetryOnConcurrencyError

/-!
# How an `execute` call ends

Until the last attempt every dispatch was rejected, and there was one an attempt (`Rejected`). A
built-in resolver lets a call go on only while there are retries (`Bounded`), so the call ends; and
an attempt ends it with at most one dispatch that succeeds, the last.
-/

namespace NodeCqrs

namespace AggregateCommandHandler

variable {E : Type}

/-- What the resolvers have in common: they go on while there are retries, and ignore only a
`ConcurrencyError`. -/
structure Bounded (shouldRetry : RetryOnConcurrencyErrorResolver E) (retries : ℕ) : Prop where
  yes : ∀ error events attempt, shouldRetry error events attempt = .yes → attempt < retries
  ignore : ∀ error events attempt, shouldRetry error events attempt = .ignore →
    error.isConcurrencyError

theorem retryUpTo_bounded (maxRetries : ℤ) :
    Bounded (retryUpTo maxRetries : RetryOnConcurrencyErrorResolver E) maxRetries.toNat := by
  constructor
  · intro error events attempt h
    unfold retryUpTo at h
    split at h
    · rename_i hlt
      simp only [Bool.and_eq_true, decide_eq_true_eq] at hlt
      omega
    · cases h
  · intro error events attempt h
    unfold retryUpTo at h
    split at h <;> cases h

theorem normalizeRetryResolver_bounded {options : RetryOnConcurrencyErrorOptions E}
    {shouldRetry : RetryOnConcurrencyErrorResolver E} (hb : options.BuiltIn)
    (h : normalizeRetryResolver options = .ok shouldRetry) :
    Bounded shouldRetry options.retries := by
  cases options with
  | undefined =>
    obtain rfl := Except.ok.inj h
    exact retryUpTo_bounded _
  | boolean value =>
    cases value with
    | true =>
      obtain rfl := Except.ok.inj h
      exact retryUpTo_bounded _
    | false =>
      obtain rfl := Except.ok.inj h
      constructor
      · rintro _ _ _ ⟨⟩
      · rintro _ _ _ ⟨⟩
  | ignore =>
    obtain rfl := Except.ok.inj h
    constructor
    · intro error events attempt hr
      split at hr <;> cases hr
    · intro error events attempt hr
      split at hr
      · assumption
      · cases hr
  | number value =>
    obtain rfl := Except.ok.inj h
    exact retryUpTo_bounded value
  | config maxRetries ignoreAfterMaxRetries =>
    unfold normalizeRetryResolver at h
    rcases hassert : assertNonNegativeInteger (maxRetries.getD DEFAULT_MAX_RETRY_ATTEMPTS)
      "retryOnConcurrencyError.maxRetries" with _ | _
    · simp [hassert, bind, Except.bind] at h
    · simp only [hassert, bind, Except.bind, pure, Except.pure, Except.ok.injEq] at h
      subst h
      constructor
      · intro error events attempt hr
        split_ifs at hr with hc hlt
        show attempt < (maxRetries.getD DEFAULT_MAX_RETRY_ATTEMPTS).toNat
        omega
      · intro error events attempt hr
        split_ifs at hr with hc hlt
        simpa using hc
  | resolver value => exact hb.elim

/-- Every attempt so far made one dispatch, and that was rejected. -/
structure Rejected (attempt : ℕ) (dispatches : List (Dispatched E)) : Prop where
  length : dispatches.length = attempt
  earlier : ∀ d ∈ dispatches, d.attempt < attempt
  regular : ∀ d ∈ dispatches, d.ignoreConcurrencyError = false
  rejected : ∀ d ∈ dispatches, d.succeeded = false

/-- What is promised of the dispatches of a call. -/
structure Allowed (retries : ℕ) (dispatches : List (Dispatched E)) : Prop where
  forced : (dispatches.filter (·.ignoreConcurrencyError)).length ≤ 1
  after : ∀ before d after, dispatches = before ++ d :: after → d.ignoreConcurrencyError →
    ∃ d' error, before.getLast? = some d' ∧ d'.outcome = .error error ∧ error.isConcurrencyError
  regular : (dispatches.filter (!·.ignoreConcurrencyError)).length ≤ retries + 1

/-- What is promised of a call that ended. -/
structure Outcome (retries : ℕ) (r : Executed E) : Prop where
  returns : ∀ events, r.outcome = .ok events →
    (events = [] ∧ ∀ d ∈ r.dispatches, d.attempt ≠ r.attempt)
      ∨ ∃ d, r.dispatches.filter (·.succeeded) = [d] ∧ d.events = events
  throws : ∀ error, r.outcome = .error error → ∀ d ∈ r.dispatches, d.succeeded = false
  allowed : Allowed retries r.dispatches

theorem allowed_of_regular {retries : ℕ} {dispatches : List (Dispatched E)}
    (h : ∀ d ∈ dispatches, d.ignoreConcurrencyError = false)
    (hlen : dispatches.length ≤ retries + 1) : Allowed retries dispatches := by
  constructor
  · rw [List.filter_eq_nil_iff.2 fun d hd => by simp [h d hd]]
    exact Nat.zero_le _
  · rintro before d after rfl hd
    simp [h d (by simp)] at hd
  · exact Nat.le_trans (List.length_filter_le _ _) hlen

/-- A last dispatch that ignores the `ConcurrencyError` of the one before it. -/
theorem allowed_of_forced {retries : ℕ} {dispatches : List (Dispatched E)} {last d : Dispatched E}
    (h : ∀ d ∈ dispatches, d.ignoreConcurrencyError = false)
    (hlen : dispatches.length ≤ retries + 1) (hlast : dispatches.getLast? = some last)
    {error : ExecuteError} (he : last.outcome = .error error) (hc : error.isConcurrencyError)
    (hd : d.ignoreConcurrencyError) : Allowed retries (dispatches ++ [d]) := by
  have hnone : dispatches.filter (·.ignoreConcurrencyError) = [] :=
    List.filter_eq_nil_iff.2 fun d hd => by simp [h d hd]
  constructor
  · simp [List.filter_append, hnone, hd]
  · intro before d' after hs hd'
    rcases List.eq_nil_or_concat after with rfl | ⟨after, d'', rfl⟩
    · obtain ⟨rfl, -⟩ := List.append_inj' hs rfl
      exact ⟨last, error, hlast, he, hc⟩
    · have hs' : dispatches ++ [d] = (before ++ d' :: after) ++ [d''] := by simpa using hs
      obtain ⟨rfl, -⟩ := List.append_inj' hs' rfl
      simp [h d' (by simp)] at hd'
  · rw [List.filter_append, List.filter_cons_of_neg (by simp [hd]), List.filter_nil,
      List.append_nil]
    exact Nat.le_trans (List.length_filter_le _ _) hlen

namespace Rejected

variable {attempt retries : ℕ} {dispatches : List (Dispatched E)}

theorem filter_succeeded (h : Rejected attempt dispatches) :
    dispatches.filter (·.succeeded) = [] :=
  List.filter_eq_nil_iff.2 fun d hd => by simp [h.rejected d hd]

/-- A regular dispatch more, that is rejected. -/
theorem concat (h : Rejected attempt dispatches) (events : List E) (error : ExecuteError) :
    Rejected (attempt + 1) (dispatches ++ [⟨attempt, events, false, .error error⟩]) := by
  constructor
  · simp [h.length]
  · intro d hd
    rcases List.mem_append.1 hd with hd | hd
    · exact Nat.lt_succ_of_lt (h.earlier d hd)
    · simp [List.mem_singleton.1 hd]
  · intro d hd
    rcases List.mem_append.1 hd with hd | hd
    · exact h.regular d hd
    · simp [List.mem_singleton.1 hd]
  · intro d hd
    rcases List.mem_append.1 hd with hd | hd
    · exact h.rejected d hd
    · rw [List.mem_singleton.1 hd]
      rfl

/-- The call throws. -/
theorem throws (h : Rejected attempt dispatches) (hr : attempt ≤ retries + 1) (last : ℕ)
    (error : ExecuteError) : Outcome retries ⟨.error error, last, dispatches⟩ := by
  constructor
  · rintro _ ⟨⟩
  · exact fun _ _ => h.rejected
  · exact allowed_of_regular h.regular (Nat.le_trans (Nat.le_of_eq h.length) hr)

/-- The call returns no events. -/
theorem returns_nil (h : Rejected attempt dispatches) (hr : attempt ≤ retries) :
    Outcome retries ⟨.ok [], attempt, dispatches⟩ := by
  constructor
  · rintro _ ⟨⟩
    exact .inl ⟨rfl, fun d hd => Nat.ne_of_lt (h.earlier d hd)⟩
  · rintro _ ⟨⟩
  · exact allowed_of_regular h.regular (by rw [h.length]; exact Nat.le_succ_of_le hr)

/-- The call returns the events of a dispatch that succeeds. -/
theorem returns (h : Rejected attempt dispatches) (hr : attempt ≤ retries) (events : List E) :
    Outcome retries ⟨.ok events, attempt, dispatches ++ [⟨attempt, events, false, .ok ()⟩]⟩ := by
  constructor
  · rintro _ ⟨⟩
    refine .inr ⟨⟨attempt, events, false, .ok ()⟩, ?_, rfl⟩
    rw [List.filter_append, h.filter_succeeded]
    rfl
  · rintro _ ⟨⟩
  · refine allowed_of_regular (fun d hd => ?_) (by simpa [h.length] using hr)
    rcases List.mem_append.1 hd with hd | hd
    · exact h.regular d hd
    · simp [List.mem_singleton.1 hd]

end Rejected

section Loop

variable {shouldRetry : RetryOnConcurrencyErrorResolver E} {retries : ℕ} (a : Answers E)

/-- After a `ConcurrencyError` the second dispatch ends the call. -/
theorem forceDispatch_outcome {attempt : ℕ} {dispatches : List (Dispatched E)}
    (h : Rejected attempt dispatches) (hr : attempt ≤ retries) {events : List E}
    (hne : events ≠ []) {error : ExecuteError} (hc : error.isConcurrencyError) :
    Outcome retries (forceDispatch a attempt events
      (dispatches ++ [⟨attempt, events, false, .error error⟩])) := by
  have h' := h.concat events error
  unfold forceDispatch
  rw [if_neg hne]
  have hlast : (dispatches ++ [(⟨attempt, events, false, .error error⟩ : Dispatched E)]).getLast?
      = some ⟨attempt, events, false, .error error⟩ := List.getLast?_concat ..
  have hallowed : ∀ outcome, Allowed retries
      ((dispatches ++ [⟨attempt, events, false, .error error⟩]) ++
        [⟨attempt, events, true, outcome⟩]) := fun outcome =>
    allowed_of_forced h'.regular (by rw [h'.length]; exact Nat.succ_le_succ hr) hlast rfl hc rfl
  dsimp only
  generalize a.dispatch _ = outcome
  cases outcome with
  | error error' =>
    refine ⟨?_, fun _ _ d hd => ?_, hallowed _⟩
    · rintro _ ⟨⟩
    · rcases List.mem_append.1 hd with hd | hd
      · exact h'.rejected d hd
      · rw [List.mem_singleton.1 hd]
        rfl
  | ok u =>
    refine ⟨?_, ?_, hallowed _⟩
    · rintro _ ⟨⟩
      refine .inr ⟨⟨attempt, events, true, .ok ()⟩, ?_, rfl⟩
      rw [List.filter_append, h'.filter_succeeded]
      rfl
    · rintro _ ⟨⟩

theorem executeLoop_outcome (hb : Bounded shouldRetry retries) : ∀ {fuel attempt : ℕ}
    {dispatches : List (Dispatched E)}, Rejected attempt dispatches → attempt ≤ retries →
    retries - attempt < fuel →
    ∃ r, executeLoop shouldRetry a fuel attempt dispatches = some r ∧ Outcome retries r
  | 0, _, _, _, _, hf => absurd hf (Nat.not_lt_zero _)
  | fuel + 1, attempt, dispatches, h, hr, hf => by
    unfold executeLoop
    rcases (a.aggregate attempt).bind fun _ => a.handle attempt with error | events
    · exact ⟨_, rfl, h.throws (Nat.le_succ_of_le hr) attempt error⟩
    · dsimp only
      split_ifs with hnil
      · subst hnil
        exact ⟨_, rfl, h.returns_nil hr⟩
      · rcases a.dispatch dispatches.length with error | -
        · have h' := h.concat events error
          dsimp only
          rcases hs : shouldRetry error events attempt with _ | _ | _
          · exact ⟨_, rfl, h'.throws (Nat.succ_le_succ hr) attempt error⟩
          · have hlt := hb.yes error events attempt hs
            exact executeLoop_outcome hb h' hlt (by omega)
          · exact ⟨_, rfl, forceDispatch_outcome a h hr hnil (hb.ignore error events attempt hs)⟩
        · exact ⟨_, rfl, h.returns hr events⟩

/-- An end that is reached is the end, however many attempts more would be allowed. -/
theorem executeLoop_mono : ∀ {fuel fuel' attempt : ℕ} {dispatches : List (Dispatched E)}
    {r : Executed E}, fuel ≤ fuel' → executeLoop shouldRetry a fuel attempt dispatches = some r →
    executeLoop shouldRetry a fuel' attempt dispatches = some r
  | 0, _, _, _, _, _, h => by cases h
  | fuel + 1, 0, _, _, _, hf, _ => absurd hf (Nat.not_succ_le_zero _)
  | fuel + 1, fuel' + 1, attempt, dispatches, r, hf, h => by
    unfold executeLoop at h ⊢
    rcases hevents : (a.aggregate attempt).bind fun _ => a.handle attempt with error | events
    · rw [hevents] at h
      exact h
    · rw [hevents] at h
      dsimp only at h ⊢
      split_ifs at h ⊢ with hnil
      · exact h
      · rcases hd : a.dispatch dispatches.length with error | _
        · rw [hd] at h
          dsimp only at h ⊢
          rcases hs : shouldRetry error events attempt with _ | _ | _
          · rw [hs] at h
            exact h
          · rw [hs] at h
            exact executeLoop_mono (Nat.le_of_succ_le_succ hf) h
          · rw [hs] at h
            exact h
        · rw [hd] at h
          exact h

end Loop

end AggregateCommandHandler

end NodeCqrs
