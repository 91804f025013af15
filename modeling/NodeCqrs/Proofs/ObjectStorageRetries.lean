import NodeCqrs.Mongo.ObjectStorage
import NodeCqrs.Proofs.ObjectStorage
import NodeCqrs.Redis.ObjectStorage

/-!
# Retries are for other calls' effects

An attempt of `update` or `updateEnforcingNew` that is to be made again found the record other than
it had read it, so some other call took effect in between (`At`). Each attempt has an effect of its
own, so a call is out of retries only after more effects of others than it has retries.
-/

namespace NodeCqrs

open Versioned (Effect)

namespace ObjectStorage

variable {D : Type} {S : ObjectStorage D} {id : String} {method : Method D} {maxRetries c n : ℕ}
  {s s' : Sys D}

/-- The record, if there is one, takes a write on the version it has. -/
def Accepts (S : ObjectStorage D) (s : Sys D) : Prop :=
  ∀ read ∈ s.record, ∀ updated, (S.updateIfVersion read updated (some read)).2 = .updated

/-- The action is a command of the call. -/
def isCommand (c : ℕ) : Action D → Bool
  | .command c' => c' = c
  | .call .. => false

/-- What a call throws after its last attempt. -/
def contendedMessage (id : String) (maxRetries : ℕ) : Method D → String
  | .updateEnforcingNew _ => s!"Record '{id}' could not be upserted after {maxRetries} retries"
  | _ => s!"Record '{id}' could not be updated after {maxRetries} retries"

/-- Why a call throws, when others have taken `effects` effects since it began. -/
inductive Throws (id : String) (maxRetries effects : ℕ) : Method D → String → Prop
  | taken {data : D} :
      Throws id maxRetries effects (.create data) s!"Record '{id}' could not be created"
  | missing {f : D → Except String D} :
      Throws id maxRetries effects (.update f) s!"Record '{id}' does not exist"
  | update {f : D → Except String D} {data : D} {message : String} : f data = .error message →
      Throws id maxRetries effects (.update f) message
  | updateEnforcingNew {f : Option D → Except String D} {data : Option D} {message : String} :
      f data = .error message → Throws id maxRetries effects (.updateEnforcingNew f) message
  | contended {method : Method D} : maxRetries < effects →
      Throws id maxRetries effects method (contendedMessage id maxRetries method)

def Method.Updates (method : Method D) : Prop :=
  (∃ f, method = .update f) ∨ ∃ f, method = .updateEnforcingNew f

/-- Where a call can be after `n` commands of its own and `effects` effects of others. -/
def At (id : String) (record : Option (Versioned D)) (call : Call D) (n effects : ℕ) : Prop :=
  match call.phase with
  | .insert _ => n = 0 ∧ ∃ data, call.method = .create data
  | .delete => n = 0
  | .get attempt => call.method.Updates ∧ n = 2 * attempt ∧ attempt ≤ call.maxRetries
      ∧ attempt ≤ effects
  | .updateIfVersion attempt read _ _ => call.method.Updates ∧ n = 2 * attempt + 1
      ∧ attempt ≤ call.maxRetries ∧ attempt ≤ effects ∧ (effects = attempt → record = some read)
  | .insertNew attempt _ => call.method.Updates ∧ n = 2 * attempt + 1
      ∧ attempt ≤ call.maxRetries ∧ attempt ≤ effects ∧ (effects = attempt → record = none)
  | .resolved _ => n ≤ 2 * (call.maxRetries + 1)
  | .threw message => n ≤ 2 * (call.maxRetries + 1)
      ∧ Throws id call.maxRetries effects call.method message

/-- How many effects are of calls other than `c`. -/
def Sys.others (s : Sys D) (c : ℕ) : ℕ := s.effects.countP (·.1 ≠ c)

/-- The call is under way: it has sent `n` commands, and the effects of others were `before` when it
began. -/
def Underway (id : String) (method : Method D) (maxRetries c before n : ℕ) (s : Sys D) : Prop :=
  ∃ call effects, s.calls c = some call ∧ call.method = method ∧ call.maxRetries = maxRetries ∧
    s.others c = before + effects ∧ At id s.record call n effects

theorem Throws.mono {message : String} {effects effects' : ℕ} (hle : effects ≤ effects')
    (h : Throws id maxRetries effects method message) :
    Throws id maxRetries effects' method message := by
  cases h with
  | taken => exact .taken
  | missing => exact .missing
  | update hf => exact .update hf
  | updateEnforcingNew hf => exact .updateEnforcingNew hf
  | contended hlt => exact .contended (Nat.lt_of_lt_of_le hlt hle)

variable {call : Call D}

/-- Another call takes effect. -/
theorem At.concat {record record' : Option (Versioned D)} {effects : ℕ}
    (h : At id record call n effects) : At id record' call n (effects + 1) := by
  unfold At at h ⊢
  split at h
  · exact h
  · exact h
  · exact ⟨h.1, h.2.1, h.2.2.1, Nat.le_succ_of_le h.2.2.2⟩
  · obtain ⟨hm, hn, hle, he, -⟩ := h
    exact ⟨hm, hn, hle, Nat.le_succ_of_le he, fun heq => by omega⟩
  · obtain ⟨hm, hn, hle, he, -⟩ := h
    exact ⟨hm, hn, hle, Nat.le_succ_of_le he, fun heq => by omega⟩
  · exact h
  · exact ⟨h.1, h.2.mono (Nat.le_succ effects)⟩

theorem retry_eq (attempt : ℕ) : retry id call attempt =
    if attempt + 1 ≤ call.maxRetries then .get (attempt + 1)
    else .threw (contendedMessage id call.maxRetries call.method) := by
  unfold retry contendedMessage
  split_ifs
  · rfl
  · cases call.method <;> rfl

/-- An attempt that an effect of another call has come before is made again, or was the last. -/
theorem at_retry {record : Option (Versioned D)} {attempt effects : ℕ} (hm : call.method.Updates)
    (hle : attempt ≤ call.maxRetries) (he : attempt < effects) :
    At id record { call with phase := retry id call attempt } (2 * attempt + 1 + 1) effects := by
  rw [retry_eq]
  split_ifs with hretry
  · exact ⟨hm, by omega, hretry, he⟩
  · have hn : 2 * attempt + 1 + 1 ≤ 2 * (call.maxRetries + 1) := by omega
    have hlt : call.maxRetries < effects := by omega
    exact ⟨hn, .contended hlt⟩

theorem at_callback {attempt effects : ℕ} (hm : call.method.Updates)
    (hle : attempt ≤ call.maxRetries) (he : attempt ≤ effects) :
    At id s.record { call with phase := callback id s call attempt } (2 * attempt + 1) effects := by
  have hn : 2 * attempt + 1 ≤ 2 * (call.maxRetries + 1) := by omega
  unfold callback
  split
  · rename_i f read hmethod hr
    rcases hf : f read.data with message | updated
    · exact ⟨hn, hmethod ▸ .update hf⟩
    · exact ⟨hm, rfl, hle, he, fun _ => hr⟩
  · rename_i f read hmethod hr
    rcases hf : f (some read.data) with message | updated
    · exact ⟨hn, hmethod ▸ .updateEnforcingNew hf⟩
    · exact ⟨hm, rfl, hle, he, fun _ => hr⟩
  · rename_i f hmethod hr
    rcases hf : f none with message | data
    · exact ⟨hn, hmethod ▸ .updateEnforcingNew hf⟩
    · exact ⟨hm, rfl, hle, he, fun _ => hr⟩
  · rename_i hupdate hnew hnone
    rcases hm with ⟨f, hm⟩ | ⟨f, hm⟩
    · exact ⟨hn, hm ▸ .missing⟩
    · rcases hr : s.record with _ | read
      · exact (hnone f hm hr).elim
      · exact (hnew f read hm hr).elim

/-- A command of the call leaves the record as it is, or takes effect. -/
theorem At.command {effects : ℕ} (h : At id s.record call n effects) (hS : Accepts S s)
    (hst : command S id s c call = some s') :
    (∃ phase, s' = s.goOn c call phase ∧ At id s.record { call with phase } (n + 1) effects)
      ∨ ∃ record deleted, s' = s.effect c call record deleted
        ∧ n + 1 ≤ 2 * (call.maxRetries + 1) := by
  unfold At at h
  unfold ObjectStorage.command at hst
  split at hst
  · rename_i data hp
    rw [hp] at h
    obtain ⟨rfl, data', hm⟩ := h
    split at hst <;> obtain rfl := Option.some.inj hst
    · exact .inr ⟨_, _, rfl, by omega⟩
    · exact .inl ⟨_, rfl, by omega, hm ▸ .taken⟩
  · rename_i attempt hp
    rw [hp] at h
    obtain ⟨hm, rfl, hle, he⟩ := h
    obtain rfl := Option.some.inj hst
    exact .inl ⟨_, rfl, at_callback hm hle he⟩
  · rename_i attempt read updated readAt hp
    rw [hp] at h
    obtain ⟨hm, rfl, hle, he, hread⟩ := h
    split at hst <;> obtain rfl := Option.some.inj hst
    · exact .inr ⟨_, _, rfl, by omega⟩
    · rename_i f hw hmethod
      have hn : 2 * attempt + 1 + 1 ≤ 2 * (call.maxRetries + 1) := by omega
      exact .inl ⟨_, rfl, hn, hmethod ▸ .missing⟩
    · rename_i record result hne hw hmissing
      have hlt : attempt < effects := by
        -- with no effect since the read, the version would be the one that was read
        refine Nat.lt_of_le_of_ne he fun heq => ?_
        have hr : s.record = some read := hread heq.symm
        have hu := hS read hr updated
        rw [← hr, hw] at hu
        exact hne hu
      exact .inl ⟨_, rfl, at_retry hm hle hlt⟩
  · rename_i attempt data hp
    rw [hp] at h
    obtain ⟨hm, rfl, hle, he, hread⟩ := h
    split at hst <;> obtain rfl := Option.some.inj hst
    · exact .inr ⟨_, _, rfl, by omega⟩
    · rename_i r hr
      have hlt : attempt < effects := by
        refine Nat.lt_of_le_of_ne he fun heq => ?_
        rw [hread heq.symm] at hr
        cases hr
      exact .inl ⟨_, rfl, at_retry hm hle hlt⟩
  · rename_i hp
    rw [hp] at h
    obtain rfl : n = 0 := h
    split at hst <;> obtain rfl := Option.some.inj hst
    · have hn : 0 + 1 ≤ 2 * (call.maxRetries + 1) := by omega
      exact .inl ⟨_, rfl, hn⟩
    · exact .inr ⟨_, _, rfl, by omega⟩
  · cases hst
  · cases hst

/-- What any command does: the call goes on, or takes effect. -/
theorem command_cases (hst : command S id s c call = some s') :
    (∃ phase, s' = s.goOn c call phase) ∨
      ∃ record deleted, s' = s.effect c call record deleted := by
  unfold ObjectStorage.command at hst
  split at hst
  any_goals split at hst
  all_goals first
    | cases hst; done
    | exact .inl ⟨_, (Option.some.inj hst).symm⟩
    | exact .inr ⟨_, _, (Option.some.inj hst).symm⟩

theorem step_call (hst : (machine S id).step s (.call c method maxRetries) = some s') :
    s.calls c = none ∧ s' = s.set c { method, maxRetries, phase := method.start } := by
  change ObjectStorage.step S id s (.call c method maxRetries) = some s' at hst
  unfold ObjectStorage.step at hst
  rcases hc : s.calls c with _ | call
  · simp only [hc, Option.some.injEq] at hst
    exact ⟨rfl, hst.symm⟩
  · simp [hc] at hst

theorem others_effect (record : Option (Versioned D)) (deleted : Option Bool) (c' : ℕ) :
    (s.effect c call record deleted).others c' = s.others c' + if c = c' then 0 else 1 := by
  have heffects : (s.effect c call record deleted).effects =
      s.effects ++ [(c, call.method.effect)] := rfl
  rw [Sys.others, heffects, List.countP_append, Sys.others]
  by_cases h : c = c' <;> simp [h]

/-! ## A call's run -/

/-- When the call sends a command, the record takes a write on the version it has. -/
def AcceptsAt (S : ObjectStorage D) (c : ℕ) (s : Sys D) (a : Action D) : Prop :=
  isCommand c a → Accepts S s

theorem Underway.command {before : ℕ} (h : Underway id method maxRetries c before n s)
    (hS : Accepts S s) (hst : (machine S id).step s (.command c) = some s') :
    Underway id method maxRetries c before (n + 1) s' := by
  obtain ⟨call, effects, hc, hm, hmax, ho, hat⟩ := h
  obtain ⟨call', hc', hst⟩ := Option.bind_eq_some_iff.1 hst
  obtain rfl : call' = call := Option.some.inj (hc'.symm.trans hc)
  rcases hat.command hS hst with ⟨phase, rfl, hat'⟩ | ⟨record, deleted, rfl, hle⟩
  · refine ⟨{ call' with phase }, effects, ?_, hm, hmax, ho, hat'⟩
    rw [Sys.goOn, calls_set, if_pos rfl]
  · refine ⟨{ call' with phase := .resolved deleted }, effects, ?_, hm, hmax, ?_, hle⟩
    · rw [Sys.effect, Sys.goOn, calls_set, if_pos rfl]
    · rw [others_effect, if_pos rfl, ho, Nat.add_zero]

/-- Other calls begin, go on and take effect. -/
theorem Underway.other {before : ℕ} {a : Action D} (h : Underway id method maxRetries c before n s)
    (ha : ¬ isCommand c a) (hst : (machine S id).step s a = some s') :
    Underway id method maxRetries c before n s' := by
  obtain ⟨call, effects, hc, hm, hmax, ho, hat⟩ := h
  cases a with
  | call c' method' maxRetries' =>
    obtain ⟨hc', rfl⟩ := step_call hst
    have hne : c ≠ c' := fun h => by rw [← h, hc] at hc'; cases hc'
    refine ⟨call, effects, ?_, hm, hmax, ho, hat⟩
    rw [calls_set, if_neg hne, hc]
  | command c' =>
    obtain ⟨call', hc', hst⟩ := Option.bind_eq_some_iff.1 hst
    have hcc : c' ≠ c := fun h => ha (by simp [isCommand, h])
    rcases command_cases hst with ⟨phase, rfl⟩ | ⟨record, deleted, rfl⟩
    · exact ⟨call, effects, by rw [Sys.goOn, calls_set, if_neg hcc.symm, hc], hm, hmax, ho, hat⟩
    · refine ⟨call, effects + 1, ?_, hm, hmax, ?_, hat.concat⟩
      · rw [Sys.effect, Sys.goOn, calls_set, if_neg hcc.symm]
        exact hc
      · rw [others_effect, if_neg hcc, ho, Nat.add_assoc]

theorem Underway.step {before : ℕ} {a : Action D} (h : Underway id method maxRetries c before n s)
    (hS : AcceptsAt S c s a) (hst : (machine S id).step s a = some s') :
    Underway id method maxRetries c before (n + if isCommand c a then 1 else 0) s' := by
  by_cases ha : isCommand c a
  · obtain rfl : a = .command c := by
      cases a with
      | call => cases ha
      | command c' => rw [of_decide_eq_true ha]
    rw [if_pos ha]
    exact h.command (hS ha) hst
  · rw [if_neg ha]
    exact h.other ha hst

theorem Underway.run {C : Sys D → Action D → Prop} (hC : ∀ s a, C s a → AcceptsAt S c s a)
    {before : ℕ} : ∀ {l : List (Action D)} {n : ℕ} {s : Sys D},
    Underway id method maxRetries c before n s → (machine S id).Along C s l →
      (machine S id).run s l = some s' →
      Underway id method maxRetries c before (n + l.countP (isCommand c)) s'
  | [], n, s, h, _, hr => Option.some.inj hr ▸ h
  | a :: l, n, s, h, hA, hr => by
    obtain ⟨t, hst, hr⟩ := Option.bind_eq_some_iff.1 hr
    have ht := Underway.run hC (h.step (hC s a hA.1) hst) (hA.2 t hst) hr
    rwa [Nat.add_assoc, Nat.add_comm _ (l.countP (isCommand c)), ← List.countP_cons] at ht

/-- A call of `method` begins. -/
theorem underway_call {t : Sys D}
    (hst : (machine S id).step s (.call c method maxRetries) = some t) :
    Underway id method maxRetries c (s.others c) 0 t := by
  obtain ⟨-, rfl⟩ := step_call hst
  refine ⟨_, 0, by rw [calls_set, if_pos rfl], rfl, rfl, rfl, ?_⟩
  cases method with
  | create data => exact ⟨rfl, data, rfl⟩
  | update f => exact ⟨.inl ⟨f, rfl⟩, rfl, Nat.zero_le _, Nat.le_refl 0⟩
  | updateEnforcingNew f => exact ⟨.inr ⟨f, rfl⟩, rfl, Nat.zero_le _, Nat.le_refl 0⟩
  | delete => exact rfl

/-- What there is to say of a call after `commands` of its own and `effects` of others. -/
structure Settles (id : String) (commands effects : ℕ) (call : Call D) : Prop where
  budget : commands ≤ 2 * (call.maxRetries + 1)
  pending : call.phase.pending → commands < 2 * (call.maxRetries + 1)
  threw : ∀ message, call.phase = .threw message →
    Throws id call.maxRetries effects call.method message

theorem At.settles {effects : ℕ} {record : Option (Versioned D)}
    (h : At id record call n effects) : Settles id n effects call := by
  unfold At at h
  refine ⟨?_, fun hp => ?_, fun message hphase => ?_⟩
  · split at h <;> omega
  · split at h
    all_goals first | omega | (rename_i hphase; rw [hphase] at hp; exact hp.elim)
  · rw [hphase] at h
    exact h.2

/-- In a run that starts with the call, whatever else is in it. -/
theorem settles {C : Sys D → Action D → Prop} (hC : ∀ s a, C s a → AcceptsAt S c s a)
    {l : List (Action D)} (hr : (machine S id).run s (.call c method maxRetries :: l) = some s')
    (hA : (machine S id).Along C s (.call c method maxRetries :: l)) :
    ∃ call, s'.calls c = some call ∧ call.method = method ∧ call.maxRetries = maxRetries ∧
      Settles id (l.countP (isCommand c)) (s'.others c - s.others c) call := by
  obtain ⟨t, hst, hr⟩ := Option.bind_eq_some_iff.1 hr
  obtain ⟨call, effects, hc, hm, hmax, ho, hat⟩ := (underway_call hst).run hC (hA.2 t hst) hr
  refine ⟨call, hc, hm, hmax, ?_⟩
  rw [ho, Nat.add_sub_cancel_left, ← Nat.zero_add (l.countP _)]
  exact hat.settles

end ObjectStorage

open ObjectStorage

namespace MongoObjectStorage

variable {D : Type} {id : String} {method : Method D} {maxRetries c : ℕ} {s s' : Sys D}

theorem accepts (s : Sys D) : Accepts mongoObjectStorage s := by
  intro read _ updated
  simp [mongoObjectStorage, findOneAndUpdate]

end MongoObjectStorage

namespace RedisObjectStorage

variable {D : Type} {id : String} {method : Method D} {maxRetries c : ℕ} {s s' : Sys D}

/-- When the call sends a command, the version has no more digits than Lua writes out. -/
def ShortVersion (c : ℕ) (s : Sys D) (a : Action D) : Prop :=
  isCommand c a → ∀ read ∈ s.record, read.version < 10 ^ 14

instance ShortVersion.decidable (s : Sys D) (a : Action D) : Decidable (ShortVersion c s a) :=
  inferInstanceAs (Decidable (_ → ∀ read ∈ s.record, read.version < 10 ^ 14))

theorem accepts (hv : ∀ read ∈ s.record, read.version < 10 ^ 14) :
    Accepts redisObjectStorage s := by
  intro read hr updated
  have hsame : sameString read.version read.version = true := by
    simpa [sameString] using hv read hr
  simp [redisObjectStorage, SCRIPT_UPDATE_IF_VERSION, hsame]

/-- The same of a call that finds versions of at most fourteen digits. -/
theorem settles_short {l : List (Action D)}
    (hr : (machine redisObjectStorage id).run s (.call c method maxRetries :: l) = some s')
    (hA : (machine redisObjectStorage id).Along (ShortVersion c) s
      (.call c method maxRetries :: l)) :
    ∃ call, s'.calls c = some call ∧ call.method = method ∧ call.maxRetries = maxRetries ∧
      Settles id (l.countP (isCommand c)) (s'.others c - s.others c) call :=
  settles (fun _ _ hC ha => accepts (hC ha)) hr hA

/-- An update with one retry is overtaken once, and writes what the other one left. -/
theorem settles_short_once : ∃ s' : Sys ℕ, s'.record = some { data := 201, version := 3 } ∧
    ∃ call, s'.calls 1 = some call ∧ Settles "a" 4 1 call := by
  let m := machine (redisObjectStorage : ObjectStorage ℕ) "a"
  let add : Method ℕ := .update fun n => .ok (n + 100)
  let l : List (Action ℕ) := [.call 1 add 1, .command 1, .call 2 add 0, .command 2, .command 2,
    .command 1, .command 1, .command 1]
  obtain ⟨s, -, s', hr, ht, hA, hn⟩ :
      ∃ s, m.run {} [.call 0 (.create 1) 0, .command 0] = some s ∧ ∃ s', m.run s l = some s' ∧
        s'.record = some { data := 201, version := 3 } ∧ m.Along (ShortVersion 1) s l ∧
        s'.others 1 - s.others 1 = 1 :=
    ⟨_, rfl, _, rfl, rfl, by decide, rfl⟩
  obtain ⟨call, hc, -, -, h⟩ := settles_short hr hA
  rw [hn] at h
  exact ⟨s', ht, call, hc, h⟩

end RedisObjectStorage

end NodeCqrs
