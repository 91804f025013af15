import NodeCqrs.Proofs.AggregateCommandHandler

/-!
# Instances that stay cached

A cache entry's instance is either one a call works on or one left for the next call. `Kept` says so
for any property `rest` of what is left and any property `ok` of the calls, and its lemmas say what
the operations on calls and caches ask for to keep it.
-/

namespace NodeCqrs

variable {I V σ : Type}

/-- The call's handler works, or has worked, on the instance, and the call has not reset the entry
since. -/
def Phase.works : Phase I V σ → Ref I → Prop
  | .handler attempt _, r => attempt.ref = r
  | .dispatch attempt _ ignoreConcurrencyError _, r =>
    attempt.ref = r ∧ ignoreConcurrencyError = false
  | .acquiring _, _ | .aggregate _, _ => False

theorem Phase.ref_of_works {p : Phase I V σ} {r : Ref I} (h : p.works r) : p.ref = some r := by
  cases p <;> simp_all [works, ref]

namespace CommandHandlers

/-- Who works on another instance is another call. -/
theorem ne_of_works {s : Sys I V σ} {c c' : ℕ} {call call' : Call I V σ} {r r' : Ref I}
    (hc : s.calls c = some call) (hr : call.phase.ref = some r) (hc' : s.calls c' = some call')
    (hw : call'.phase.works r') (hne : r' ≠ r) : c' ≠ c := by
  rintro rfl
  obtain rfl := Option.some.inj (hc.symm.trans hc')
  exact hne (Option.some.inj ((Phase.ref_of_works hw).symm.trans hr))

structure Kept (rest : ℕ → I → Ref I → Prop) (ok : Call I V σ → Prop) (s : Sys I V σ) : Prop where
  entries : ∀ h id r, (s.cache h).entries id = some r →
    (∃ c call, s.calls c = some call ∧ call.phase.works r) ∨ rest h id r
  calls : ∀ c call, s.calls c = some call → ok call

namespace Kept

variable {rest rest' : ℕ → I → Ref I → Prop} {ok ok' : Call I V σ → Prop} {s s' : Sys I V σ}

/-- Caches and calls stay, and what is known of them follows from what was. -/
theorem mono (hK : Kept rest ok s) (hc : s'.calls = s.calls)
    (he : ∀ h id, (s'.cache h).entries id = (s.cache h).entries id)
    (hrest : ∀ h id r, (s.cache h).entries id = some r → rest h id r → rest' h id r)
    (hok : ∀ c call, s.calls c = some call → ok call → ok' call) : Kept rest' ok' s' where
  entries h id r hr := by
    rw [he] at hr
    rw [hc]
    exact (hK.entries h id r hr).imp_right (hrest h id r hr)
  calls c call h := by
    rw [hc] at h
    exact hok c call h (hK.calls c call h)

/-- A call goes on: an entry it worked on is worked on still, or left. -/
theorem setCall (hK : Kept rest ok s) {c : ℕ} {call' : Call I V σ} (hok : ok call')
    (hrest : ∀ call r h id, s.calls c = some call → call.phase.works r →
      (s.cache h).entries id = some r → call'.phase.works r ∨ rest h id r) :
    Kept rest ok (s.setCall c call') where
  entries h id r hr := by
    rcases hK.entries h id r hr with ⟨x, callx, hx, hw⟩ | hi
    · by_cases hxc : x = c
      · rcases hrest callx r h id (hxc ▸ hx) hw hr with hw' | h
        · exact .inl ⟨c, call', Sys.setCall_calls_self .., hw'⟩
        · exact .inr h
      · exact .inl ⟨x, callx, by simpa [hxc] using hx, hw⟩
    · exact .inr hi
  calls x callx hx := by
    by_cases hxc : x = c
    · obtain rfl : call' = callx := by simpa [hxc] using hx
      exact hok
    · exact hK.calls x callx (by simpa [hxc] using hx)

/-- Entries may go, and come as left. -/
theorem setCaches (hK : Kept rest ok s) (hc : s'.calls = s.calls)
    (he : ∀ h id r, (s'.cache h).entries id = some r →
      (s.cache h).entries id = some r ∨ rest h id r) : Kept rest ok s' where
  entries h id r hr := by
    rw [hc]
    exact (he h id r hr).elim (hK.entries h id r) .inr
  calls c call h := hK.calls c call (hc ▸ h)

/-- A call ends and leaves what is still cached. -/
theorem ends (hK : Kept rest ok s) {c : ℕ} (hc : s'.calls = Function.update s.calls c none)
    (he : ∀ h id r, (s'.cache h).entries id = some r → (s.cache h).entries id = some r)
    (hrest : ∀ call r h id, s.calls c = some call → call.phase.works r →
      (s'.cache h).entries id = some r → rest h id r) : Kept rest ok s' where
  entries h id r hr := by
    rcases hK.entries h id r (he h id r hr) with ⟨x, callx, hx, hw⟩ | hi
    · by_cases hxc : x = c
      · exact .inr (hrest callx r h id (hxc ▸ hx) hw hr)
      · exact .inl ⟨x, callx, by simpa [hc, hxc] using hx, hw⟩
    · exact .inr hi
  calls x callx hx := by
    rw [hc] at hx
    exact hK.calls x callx (Shape.calls_of_clear hx).2

variable [DecidableEq I] [Truthy I] {H : CommandHandlers I V σ} {c : ℕ} {call : Call I V σ}

/-- The `finally` of `execute`. -/
theorem finish (hK : Kept rest ok s)
    (hrest : ∀ call r h id, s.calls c = some call → call.phase.works r →
      (s.cache h).entries id = some r → rest h id r) : Kept rest ok (H.finish s c call) :=
  hK.ends (by simp) (fun h id r => entries_of_finish H s c call h id)
    fun call' r h id hc hw hr => hrest call' r h id hc hw (entries_of_finish H s c call h id hr)

theorem throwFrom (hK : Kept rest ok s) (hS : Shape H s) (hc : s.calls c = some call) :
    Kept rest ok (H.throwFrom s c call) := by
  have he : ∀ h id r, ((H.throwFrom s c call).cache h).entries id = some r →
      (s.cache h).entries id = some r ∧ (h = call.handler → aggregateId call ≠ some id) :=
    fun h id r hr => entries_of_reset s call h id (entries_of_finish H _ c call h id hr)
  refine hK.ends (c := c) (by simp [CommandHandlers.throwFrom]) (fun h id r hr => (he h id r hr).1)
    fun call' r h id hc' hw hr => ?_
  obtain rfl := Option.some.inj (hc.symm.trans hc')
  obtain ⟨hr, hne⟩ := he h id r hr
  obtain ⟨hh, hid⟩ := hS.entry_of_ref hc (Phase.ref_of_works hw) hr
  exact absurd hid (hne hh)

/-- A call with a lease resets the entry, and goes on with the instance or without. -/
theorem reset (hK : Kept rest ok s) (hS : Shape H s) (hc : s.calls c = some call)
    {call' : Call I V σ} (hok : ok call') :
    Kept rest ok ((resetCacheEntry s call).setCall c call') := by
  have hK' : Kept rest ok (resetCacheEntry s call) := hK.setCaches (by simp)
    fun h id r hr => .inl (entries_of_reset s call h id hr).1
  refine hK'.setCall hok fun callx r h id hx hw hr => ?_
  obtain rfl := Option.some.inj (hc.symm.trans (by simpa using hx))
  obtain ⟨hr, hne⟩ := entries_of_reset s call h id hr
  obtain ⟨hh, hid⟩ := hS.entry_of_ref hc (Phase.ref_of_works hw) hr
  exact absurd hid (hne hh)

end Kept

end CommandHandlers

end NodeCqrs
