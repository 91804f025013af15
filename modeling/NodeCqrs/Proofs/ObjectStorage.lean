import NodeCqrs.ObjectStorage

/-!
# Calls that take effect at once

A call takes effect with one command, and the record is what the effects so far make of none
(`Inv`): the write of an update finds the version it read, so the record it read, unless that was
deleted in between (`Undeleted`). Other commands leave the record as it is.
-/

namespace NodeCqrs

open Versioned (Effect replay replay_concat replay_eq_of_version versionOf)
open Machine (ReachIf)

namespace ObjectStorage

variable {D : Type}

/-- A conditional write writes the data under the next version if the record's version is the one
that was read. -/
def Lawful (S : ObjectStorage D) : Prop :=
  ∀ read updated r r', S.updateIfVersion read updated r = (r', .updated) →
    r' = some { data := updated, version := read.version + 1 } ∧
      ∃ cur, r = some cur ∧ cur.version = read.version

/-- A write that finds the version it read finds a record that was not deleted in between. -/
def Undeleted (s : Sys D) : Action D → Prop
  | .command c => ∀ call attempt read updated readAt, s.calls c = some call →
      call.phase = .updateIfVersion attempt read updated readAt →
      s.record.map (·.version) = some read.version →
      Effect.delete ∉ (s.effects.map (·.2)).drop readAt
  | _ => True

/-- The effects the calls took, in their order, make the record what it is, and they are the
effects of the calls that have resolved. -/
structure Linearized (s : Sys D) : Prop where
  replay : replay (s.effects.map (·.2)) = some s.record
  resolves : ∀ p ∈ s.effects, s.Resolved p.1
  methods : ∀ p ∈ s.effects, ∀ call, s.calls p.1 = some call → p.2 = call.method.effect
  once : (s.effects.map (·.1)).Nodup
  settled : ∀ c call deleted, s.calls c = some call → call.phase = .resolved deleted →
    deleted ≠ some false → c ∈ s.effects.map (·.1)

/-- What a call goes by: the data it is about to write is what its method makes of the record it
read, or of none. -/
def Sound (effects : List (Effect D)) (call : Call D) : Prop :=
  match call.phase with
  | .insert data => call.method.effect.apply none = some (some { data, version := 1 })
  | .insertNew _ data => call.method.effect.apply none = some (some { data, version := 1 })
  | .updateIfVersion _ read updated readAt =>
    readAt ≤ effects.length ∧ Versioned.replay (effects.take readAt) = some (some read) ∧
      call.method.effect.apply (some read) =
        some (some { data := updated, version := read.version + 1 })
  | .delete => call.method.effect = .delete
  | .resolved deleted => deleted ≠ none → call.method.effect = .delete
  | _ => True

theorem Sound.append {effects : List (Effect D)} {call : Call D} (h : Sound effects call)
    (effects' : List (Effect D)) : Sound (effects ++ effects') call := by
  unfold Sound at h ⊢
  split at h
  · exact h
  · exact h
  · rw [List.take_append_of_le_length h.1, List.length_append]
    exact ⟨Nat.le_add_right_of_le h.1, h.2⟩
  · exact h
  · exact h
  · trivial

structure Inv (s : Sys D) : Prop extends Linearized s where
  sound : ∀ c call, s.calls c = some call → Sound (s.effects.map (·.2)) call

/-! ## What a step does -/

/-- The call has neither resolved nor thrown. -/
def Phase.pending : Phase D → Prop
  | .resolved _ => False
  | .threw _ => False
  | _ => True

theorem calls_set (s : Sys D) (c c' : ℕ) (call : Call D) :
    (s.set c call).calls c' = if c' = c then some call else s.calls c' := by
  by_cases h : c' = c <;> simp [Sys.set, h]

variable {s s' : Sys D} {c : ℕ} {call : Call D}

/-- A call that has not settled has taken no effect. -/
theorem Linearized.not_mem (h : Linearized s) (hc : s.calls c = some call)
    (hp : call.phase.pending) : c ∉ s.effects.map (·.1) := by
  rintro hm
  obtain ⟨p, hp', rfl⟩ := List.mem_map.1 hm
  obtain ⟨call', deleted, hc', hr⟩ := h.resolves p hp'
  obtain rfl : call = call' := Option.some.inj (hc.symm.trans hc')
  simp [hr, Phase.pending] at hp

theorem inv_init : Inv ({} : Sys D) := by
  constructor
  · constructor
    · rfl
    · simp
    · simp
    · simp
    · intro c call deleted h
      cases h
  · intro c call h
    cases h

/-- A call that takes no effect with a step may go on to any phase that is sound, and settle as
long as it does not claim an effect. -/
theorem Inv.set (h : Inv s) (hc : c ∉ s.effects.map (·.1))
    (hp : ∀ deleted, call.phase = .resolved deleted → deleted = some false)
    (hs : Sound (s.effects.map (·.2)) call) : Inv (s.set c call) := by
  have hne : ∀ p ∈ s.effects, p.1 ≠ c := fun p hp hpc => hc (List.mem_map.2 ⟨p, hp, hpc⟩)
  refine { replay := h.replay, resolves := ?_, methods := ?_, once := h.once, settled := ?_,
           sound := ?_ }
  · intro p hp
    obtain ⟨call', deleted, hc', hr⟩ := h.resolves p hp
    exact ⟨call', deleted, by rw [calls_set, if_neg (hne p hp)]; exact hc', hr⟩
  · intro p hp call' hc'
    rw [calls_set, if_neg (hne p hp)] at hc'
    exact h.methods p hp call' hc'
  · intro c' call' deleted hc' hr hd
    rw [calls_set] at hc'
    split_ifs at hc' with hcc
    · obtain rfl := Option.some.inj hc'
      exact absurd (hp deleted hr) hd
    · exact h.settled c' call' deleted hc' hr hd
  · intro c' call' hc'
    rw [calls_set] at hc'
    split_ifs at hc' with hcc
    · obtain rfl := Option.some.inj hc'
      exact hs
    · exact h.sound c' call' hc'

/-- A call takes effect on the record as it is. -/
theorem Inv.effect (h : Inv s) (hc : s.calls c = some call) (hp : call.phase.pending)
    {record : Option (Versioned D)} (he : call.method.effect.apply s.record = some record)
    {deleted : Option Bool} (hd : deleted ≠ none → call.method.effect = .delete) :
    Inv (s.effect c call record deleted) := by
  have hmem := h.not_mem hc hp
  have hne : ∀ p ∈ s.effects, p.1 ≠ c := fun p hp hpc => hmem (List.mem_map.2 ⟨p, hp, hpc⟩)
  have heffects : (s.effect c call record deleted).effects =
      s.effects ++ [(c, call.method.effect)] := rfl
  have hcalls : ∀ c', (s.effect c call record deleted).calls c' =
      if c' = c then some { call with phase := .resolved deleted } else s.calls c' :=
    fun c' => calls_set _ c c' _
  refine { replay := ?_, resolves := ?_, methods := ?_, once := ?_, settled := ?_, sound := ?_ }
  · rw [heffects, List.map_append, List.map_singleton, replay_concat, h.replay, Option.bind_some]
    exact he
  · intro p hp
    rw [heffects, List.mem_append, List.mem_singleton] at hp
    rcases hp with hp | rfl
    · obtain ⟨call', deleted', hc', hr⟩ := h.resolves p hp
      exact ⟨call', deleted', by rw [hcalls, if_neg (hne p hp)]; exact hc', hr⟩
    · exact ⟨_, deleted, by rw [hcalls, if_pos rfl], rfl⟩
  · intro p hp call' hc'
    rw [heffects, List.mem_append, List.mem_singleton] at hp
    rcases hp with hp | rfl
    · rw [hcalls, if_neg (hne p hp)] at hc'
      exact h.methods p hp call' hc'
    · rw [hcalls, if_pos rfl] at hc'
      obtain rfl := Option.some.inj hc'
      rfl
  · rw [heffects, List.map_append, List.map_singleton]
    exact List.nodup_append.2 ⟨h.once, by simp, by
      intro c₁ h₁ c₂ h₂ he
      have hc₁ : c₁ = c := he.trans (by rw [List.mem_singleton.1 h₂])
      exact hmem (hc₁ ▸ h₁)⟩
  · intro c' call' deleted' hc' hr hd
    rw [heffects, List.map_append, List.mem_append]
    rw [hcalls] at hc'
    split_ifs at hc' with hcc
    · exact .inr (by simp [hcc])
    · exact .inl (h.settled c' call' deleted' hc' hr hd)
  · intro c' call' hc'
    rw [heffects, List.map_append]
    rw [hcalls] at hc'
    split_ifs at hc' with hcc
    · obtain rfl := Option.some.inj hc'
      exact hd
    · exact (h.sound c' call' hc').append _

theorem sound_retry (id : String) (effects : List (Effect D)) (call : Call D) (attempt : ℕ) :
    Sound effects { call with phase := retry id call attempt } := by
  unfold Sound retry
  split_ifs
  · trivial
  · cases call.method <;> trivial

theorem retry_ne_resolved (id : String) (call : Call D) (attempt : ℕ) (deleted : Option Bool) :
    retry id call attempt ≠ .resolved deleted := by
  unfold retry
  split_ifs
  · simp
  · cases call.method <;> simp

/-- What a call is about to write once it has read the record. -/
theorem sound_callback (h : Inv s) (id : String) (attempt : ℕ) :
    Sound (s.effects.map (·.2)) { call with phase := callback id s call attempt } := by
  have hread : ∀ read, s.record = some read →
      Versioned.replay ((s.effects.map (·.2)).take s.effects.length) = some (some read) := by
    intro read hr
    rw [List.take_of_length_le (by simp), h.replay, hr]
  unfold callback
  split
  · rename_i f read hm hr
    rcases hf : f read.data with message | updated
    · trivial
    · refine ⟨by simp, hread read hr, ?_⟩
      simp [hm, Method.effect, Effect.apply, hf, Except.toOption, versionOf]
  · rename_i f read hm hr
    rcases hf : f (some read.data) with message | updated
    · trivial
    · refine ⟨by simp, hread read hr, ?_⟩
      simp [hm, Method.effect, Effect.apply, hf, Except.toOption, versionOf]
  · rename_i f hm hr
    rcases hf : f none with message | data
    · trivial
    · simp [Sound, hm, Method.effect, Effect.apply, hf, Except.toOption, versionOf]
  · trivial

theorem callback_ne_resolved (id : String) (s : Sys D) (call : Call D) (attempt : ℕ)
    (deleted : Option Bool) : callback id s call attempt ≠ .resolved deleted := by
  unfold callback
  split <;> (try split) <;> simp

theorem sound_start (effects : List (Effect D)) (method : Method D) (maxRetries : ℕ) :
    Sound effects { method, maxRetries, phase := method.start } := by
  cases method <;> trivial

/-- A command that writes nothing. -/
theorem Inv.goOn (h : Inv s) (hc : s.calls c = some call) (hp : call.phase.pending)
    {phase : Phase D} (hphase : ∀ deleted, phase = .resolved deleted → deleted = some false)
    (hs : Sound (s.effects.map (·.2)) { call with phase }) : Inv (s.goOn c call phase) :=
  h.set (h.not_mem hc hp) hphase hs

variable {S : ObjectStorage D} {id : String}

theorem inv_command (hS : Lawful S) (h : Inv s) (hc : s.calls c = some call)
    (hu : Undeleted s (.command c)) (hst : command S id s c call = some s') : Inv s' := by
  have hsound := h.sound c call hc
  unfold command at hst
  split at hst
  · rename_i data hp
    have hpend : call.phase.pending := by rw [hp]; trivial
    split at hst <;> obtain rfl := Option.some.inj hst
    · rename_i hr
      rw [Sound, hp] at hsound
      exact h.effect hc hpend (by rw [hr]; exact hsound) (by simp)
    · exact h.goOn hc hpend (by simp) trivial
  · rename_i attempt hp
    obtain rfl := Option.some.inj hst
    exact h.goOn hc (by rw [hp]; trivial)
      (fun deleted hd => absurd hd (callback_ne_resolved id s call attempt deleted))
      (sound_callback h id attempt)
  · rename_i attempt read updated readAt hp
    have hpend : call.phase.pending := by rw [hp]; trivial
    have hretry : Inv (s.goOn c call (retry id call attempt)) :=
      h.goOn hc hpend (fun deleted hd => absurd hd (retry_ne_resolved id call attempt deleted))
        (sound_retry id _ call attempt)
    rw [Sound, hp] at hsound
    obtain ⟨hle, hread, happly⟩ := hsound
    split at hst <;> obtain rfl := Option.some.inj hst
    · rename_i record hw
      obtain ⟨rfl, cur, hcur, hv⟩ := hS read updated s.record record hw
      -- the record has the version that was read and was not deleted, so it is the one read
      have hdel := hu call attempt read updated readAt hc hp (by rw [hcur]; simp [hv])
      have hsame : s.record = some read := by
        refine replay_eq_of_version hdel hread ?_ (by simp [hcur, versionOf, hv])
        rw [List.take_append_drop]
        exact h.replay
      exact h.effect hc hpend (by rw [hsame]; exact happly) (by simp)
    · exact h.goOn hc hpend (by simp) trivial
    · exact hretry
  · rename_i attempt data hp
    have hpend : call.phase.pending := by rw [hp]; trivial
    split at hst <;> obtain rfl := Option.some.inj hst
    · rename_i hr
      rw [Sound, hp] at hsound
      exact h.effect hc hpend (by rw [hr]; exact hsound) (by simp)
    · exact h.goOn hc hpend
        (fun deleted hd => absurd hd (retry_ne_resolved id call attempt deleted))
        (sound_retry id _ call attempt)
  · rename_i hp
    have hpend : call.phase.pending := by rw [hp]; trivial
    split at hst <;> obtain rfl := Option.some.inj hst
    · rw [Sound, hp] at hsound
      exact h.goOn hc hpend (by simp) fun _ => hsound
    · rw [Sound, hp] at hsound
      exact h.effect hc hpend (by rw [hsound]; rfl) fun _ => hsound
  · cases hst
  · cases hst

theorem inv_step (hS : Lawful S) (h : Inv s) {a : Action D} (hu : Undeleted s a)
    (hst : step S id s a = some s') : Inv s' := by
  cases a with
  | call c method maxRetries =>
    unfold step at hst
    rcases hc : s.calls c with _ | call
    · simp only [hc, Option.some.injEq] at hst
      subst hst
      refine h.set ?_ ?_ (sound_start _ method maxRetries)
      · intro hm
        obtain ⟨p, hp, rfl⟩ := List.mem_map.1 hm
        obtain ⟨call, deleted, hc', -⟩ := h.resolves p hp
        simp [hc] at hc'
      · intro deleted hd
        cases method <;> cases hd
    · simp [hc] at hst
  | command c =>
    obtain ⟨call, hc, hst⟩ := Option.bind_eq_some_iff.1 hst
    exact inv_command hS h hc hu hst

/-- A call keeps its method. -/
theorem step_method {a : Action D} (hst : step S id s a = some s') {c : ℕ} {call' : Call D}
    (hc : s'.calls c = some call') :
    (∃ call, s.calls c = some call ∧ call'.method = call.method) ∨
      a = .call c call'.method call'.maxRetries := by
  have hset : ∀ {c₁ : ℕ} {call : Call D}, s'.calls = (s.set c₁ call).calls →
      c = c₁ ∧ call = call' ∨ s.calls c = some call' := by
    intro c₁ call h
    rw [h, calls_set] at hc
    split_ifs at hc with hcc
    · exact .inl ⟨hcc, Option.some.inj hc⟩
    · exact .inr hc
  cases a with
  | call c₁ method maxRetries =>
    unfold step at hst
    rcases hc₁ : s.calls c₁ with _ | call
    · simp only [hc₁, Option.some.injEq] at hst
      subst hst
      rcases hset rfl with ⟨rfl, rfl⟩ | h
      · exact .inr rfl
      · exact .inl ⟨call', h, rfl⟩
    · simp [hc₁] at hst
  | command c₁ =>
    obtain ⟨call, hc₁, hst⟩ := Option.bind_eq_some_iff.1 hst
    have hgo : ∃ phase, s'.calls = (s.set c₁ { call with phase }).calls := by
      unfold command at hst
      split at hst
      any_goals split at hst
      all_goals first | cases hst; done | exact ⟨_, by rw [← Option.some.inj hst]; rfl⟩
    obtain ⟨phase, hgo⟩ := hgo
    rcases hset hgo with ⟨rfl, rfl⟩ | h
    · exact .inl ⟨call, hc₁, rfl⟩
    · exact .inl ⟨call', h, rfl⟩

/-- As long as no write finds a record that was deleted and created again up to the version it
read, the calls take effect one after another. -/
theorem inv (hS : Lawful S) (h : (machine S id).ReachIf Undeleted s) : Inv s :=
  ReachIf.invariant (P := Inv) (fun s (h0 : s = {}) => h0 ▸ inv_init)
    (fun _ _ _ hi hu hst => inv_step hS hi hu hst) h

theorem Linearized.not_mem_of_threw (h : Linearized s) (ht : s.Threw c) :
    c ∉ s.effects.map (·.1) := by
  rintro hm
  obtain ⟨p, hp, rfl⟩ := List.mem_map.1 hm
  obtain ⟨call, deleted, hc, hr⟩ := h.resolves p hp
  obtain ⟨call', message, hc', ht⟩ := ht
  obtain rfl : call = call' := Option.some.inj (hc.symm.trans hc')
  simp [hr] at ht

end ObjectStorage

end NodeCqrs
