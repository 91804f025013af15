import NodeCqrs.InMemory.View

/-!
# `updateAll` and `deleteAll` while other methods run

What a call establishes of each record it goes by, and all others keep, holds of every record when
it resolves (`bulk_establishes`): records that are new by then are behind the iterator too. And a
record that is not deleted meanwhile is updated once (`updated_once`).
-/

namespace NodeCqrs

namespace BulkMethod

variable {I R : Type}

/-- A record that has `P` has it after an update by the call. -/
def Keeps (P : R → Prop) : BulkMethod R → Prop
  | .updateAll _ update => ∀ r, P r → P (update r).1
  | .deleteAll _ => True

/-- The records the filter does not let through have `P`, and those it does have it once they are
updated. -/
def Establishes (P : R → Prop) : BulkMethod R → Prop
  | .updateAll filter update =>
    (∀ r, filter r = .ok false → P r) ∧ ∀ r, filter r = .ok true → P (update r).1
  | .deleteAll filter => ∀ r, filter r = .ok false → P r

variable {method : BulkMethod R} {P : R → Prop}

theorem filter_of_not_stops {value : R} (h : method.stops value = false) :
    method.filter value = .ok false := by
  simp only [stops] at h
  split at h
  · rename_i b hb
    rw [hb, h]
  · cases h

theorem Establishes.of_not_stops (hM : method.Establishes P) {value : R}
    (h : method.stops value = false) : P value := by
  have hf := filter_of_not_stops h
  cases method with
  | updateAll filter update => exact hM.1 value hf
  | deleteAll filter => exact hM value hf

end BulkMethod

namespace InMemoryViews

variable {I R : Type} [DecidableEq I] [ToString I] {P : R → Prop} {map map' : LiveMap I R}
  {key : I} {method : BulkMethod R} {place : ℕ} {c : ℕ} {s s' : Sys I R} {a : Action I R}

/-- A method changes the map in one key at most. -/
inductive Changes (map : LiveMap I R) : LiveMap I R → Prop
  | refl : Changes map map
  | set (key : I) (value : R) : Changes map (map.set key value)
  | delete (key : I) : Changes map (map.delete key)

theorem changes_create (map : LiveMap I R) (key : I) (value : R) :
    Changes map (InMemoryView.create map key value).1 := by
  simp only [InMemoryView.create]
  split
  · exact .refl
  · exact .set key value

theorem changes_update (map : LiveMap I R) (key : I) (update : Update R) :
    Changes map (InMemoryView.update map key update).1 := by
  simp only [InMemoryView.update]
  split
  · exact .refl
  · split <;> exact .set key _

theorem changes_updateEnforcingNew (map : LiveMap I R) (key : I) (new : Except String R)
    (update : Update R) : Changes map (InMemoryView.updateEnforcingNew map key new update).1 := by
  simp only [InMemoryView.updateEnforcingNew]
  split
  · exact changes_create ..
  · exact .refl
  · exact changes_update ..

theorem changes_visit (method : BulkMethod R) (map : LiveMap I R) (key : I) :
    Changes map (method.visit map key).1 := by
  simp only [BulkMethod.visit]
  split
  · exact .refl
  · exact changes_update ..
  · exact .delete key

/-! ### What a call establishes -/

theorem behind_create (h : map.Behind P place) (value : R) :
    (InMemoryView.create map key value).1.Behind P place := by
  simp only [InMemoryView.create]
  split
  · exact h
  · rename_i hnone
    exact h.set fun v hv => by rw [hnone] at hv; cases hv

theorem behind_update {update : Update R} (hP : ∀ r, P r → P (update r).1)
    (h : map.Behind P place) : (InMemoryView.update map key update).1.Behind P place := by
  simp only [InMemoryView.update]
  split
  · exact h
  · rename_i value hvalue
    have hset : (map.set key (update value).1).Behind P place := h.set fun v hv hPv => by
      obtain rfl := Option.some.inj (hvalue.symm.trans hv)
      exact hP value hPv
    split <;> rename_i hu <;> rwa [hu] at hset

theorem behind_updateEnforcingNew {new : Except String R} {update : Update R}
    (hP : ∀ r, P r → P (update r).1) (h : map.Behind P place) :
    (InMemoryView.updateEnforcingNew map key new update).1.Behind P place := by
  simp only [InMemoryView.updateEnforcingNew]
  split
  · exact behind_create h _
  · exact h
  · exact behind_update hP h

/-- The write of another call. -/
theorem behind_visit (hM : method.Keeps P) (h : map.Behind P place) :
    (method.visit map key).1.Behind P place := by
  simp only [BulkMethod.visit]
  split
  · exact h
  · exact behind_update hM h
  · exact h.delete key

/-- The call's own write. -/
theorem visit_establishes {value : R} (hM : method.Establishes P) (hv : map.value key = some value)
    (hs : method.stops value = true) (hok : (method.visit map key).2 = .ok ()) :
    (∃ v, (method.visit map key).1 = map.set key v ∧ P v)
      ∨ (method.visit map key).1 = map.delete key := by
  have hf : method.filter value = .ok true := by
    simp only [BulkMethod.visit, hv, Option.map_some] at hok
    simp only [BulkMethod.stops] at hs
    split at hs
    · rename_i b hb
      rw [hb, hs]
    · rename_i message hm
      simp [hm] at hok
  cases method with
  | deleteAll filter => exact .inr (by simp only [BulkMethod.visit, hv, Option.map_some, hf])
  | updateAll filter update =>
    refine .inl ⟨(update value).1, ?_, hM.2 value hf⟩
    simp only [BulkMethod.visit, hv, Option.map_some, hf, InMemoryView.update]
    split <;> rename_i hu <;> rw [hu]

/-- The loop of a call up to its next wait: there is nothing more to visit, or a record was
written, or the loop ended with an error. -/
inductive Iterates (s : Sys I R) (c : ℕ) (method : BulkMethod R) (place : ℕ) : Sys I R → Prop
  | ends (hf : s.map.find method.stops place = none) : Iterates s c method place
      { s with calls := Function.update s.calls c (some { method, phase := .resolved }) }
  | writes {map : LiveMap I R} {key : I} {place' : ℕ}
      (hf : s.map.find method.stops place = some (key, place'))
      (hv : method.visit s.map key = (map, .ok ())) : Iterates s c method place
      { map
        calls := Function.update s.calls c (some { method, phase := .iterating place' })
        visits := s.visits ++ [(c, key)] }
  | fails {map : LiveMap I R} {key : I} {place' : ℕ} {message : String}
      (hf : s.map.find method.stops place = some (key, place'))
      (hv : method.visit s.map key = (map, .error message)) : Iterates s c method place
      { map
        calls := Function.update s.calls c (some { method, phase := .threw message })
        visits := s.visits ++ [(c, key)] }

theorem iterate_spec (s : Sys I R) (c : ℕ) (method : BulkMethod R) (place : ℕ) :
    Iterates s c method place (iterate s c method place) := by
  simp only [iterate]
  split
  · rename_i hf
    exact .ends hf
  · rename_i key place' hf
    split
    · rename_i map hv
      exact .writes hf hv
    · rename_i map message hv
      exact .fails hf hv

/-- What a step does: a single write, or a call's loop from a place on. -/
theorem step_cases (h : step s a = some s') :
    (∃ map, s' = { s with map } ∧ Changes s.map map
      ∧ ∀ P : R → Prop, ∀ place, (∀ u, (∃ key, a = .update key u
        ∨ ∃ new, a = .updateEnforcingNew key new u) → ∀ r, P r → P (u r).1) →
          s.map.Behind P place → map.Behind P place)
    ∨ (∃ x method place, s' = iterate s x method place
      ∧ ((a = .bulk x method ∧ s.calls x = none ∧ place = 0)
        ∨ (a = .next x ∧ s.calls x = some { method, phase := .iterating place }))) := by
  cases a with
  | create key value =>
    obtain rfl := Option.some.inj h
    exact .inl ⟨_, rfl, changes_create .., fun P place _ hb => behind_create hb value⟩
  | update key u =>
    obtain rfl := Option.some.inj h
    exact .inl ⟨_, rfl, changes_update .., fun P place hP hb =>
      behind_update (hP u ⟨key, .inl rfl⟩) hb⟩
  | updateEnforcingNew key new u =>
    obtain rfl := Option.some.inj h
    exact .inl ⟨_, rfl, changes_updateEnforcingNew .., fun P place hP hb =>
      behind_updateEnforcingNew (hP u ⟨key, .inr ⟨new, rfl⟩⟩) hb⟩
  | delete key =>
    obtain rfl := Option.some.inj h
    exact .inl ⟨_, rfl, .delete key, fun P place _ hb => hb.delete key⟩
  | bulk x method =>
    simp only [step] at h
    split at h
    · rename_i hx
      obtain rfl := Option.some.inj h
      exact .inr ⟨x, method, 0, rfl, .inl ⟨rfl, hx, rfl⟩⟩
    · cases h
  | next x =>
    simp only [step] at h
    split at h
    · rename_i method place hx
      obtain rfl := Option.some.inj h
      exact .inr ⟨x, method, place, rfl, .inr ⟨rfl, hx⟩⟩
    · cases h

/-- The updates of the others keep `P`. -/
def OthersKeep (c : ℕ) (P : R → Prop) (_ : Sys I R) : Action I R → Prop
  | .update _ update | .updateEnforcingNew _ _ update => ∀ r, P r → P (update r).1
  | .bulk x method => x ≠ c → method.Keeps P
  | .create .. | .delete _ | .next _ => True

/-- The others are calls that keep `P`, and what the call has gone by has it. -/
structure Establishing (c : ℕ) (P : R → Prop) (s : Sys I R) : Prop where
  others : ∀ x call, x ≠ c → s.calls x = some call → call.method.Keeps P
  behind : ∀ method place, s.calls c = some { method, phase := .iterating place } →
    method.Establishes P → s.map.Behind P place

/-- The call's own loop. -/
theorem Iterates.establishes (h : Iterates s c method place s') (hM : method.Establishes P)
    (hb : s.map.Behind P place) :
    (∀ place', s'.calls c = some { method, phase := .iterating place' } → s'.map.Behind P place')
    ∧ (s'.calls c = some { method, phase := .resolved } →
      ∀ k v, s'.map.value k = some v → P v) := by
  have hstops : ∀ v, method.stops v = false → P v := fun v => hM.of_not_stops
  cases h with
  | ends hf =>
    refine ⟨fun place' h => by simp at h, fun _ k v hv => ?_⟩
    exact hb.of_find_eq_none hstops hf hv
  | @writes map key place' hf hv =>
    refine ⟨fun place'' h => ?_, fun h => by simp at h⟩
    obtain rfl : place' = place'' := by simpa using h
    obtain ⟨-, -, -, hstop, -⟩ := LiveSet.passed_of_find_eq_some hb.1 hf
    obtain ⟨value, hvalue, hstop⟩ := (Option.any_eq_true _ _).1 hstop
    refine hb.find hstops hf ?_
    have hvisit := visit_establishes hM hvalue hstop (by rw [hv])
    rwa [hv] at hvisit
  | fails hf hv => exact ⟨fun _ h => by simp at h, fun h => by simp at h⟩

/-- The loop of another call. -/
theorem Iterates.behind {x : ℕ} {place' : ℕ} (h : Iterates s x method place s')
    (hM : method.Keeps P) (hb : s.map.Behind P place') : s'.map.Behind P place' := by
  cases h with
  | ends => exact hb
  | @writes _ key _ hf hv | @fails _ key _ _ hf hv =>
    have hvisit : (method.visit s.map key).1.Behind P place' := behind_visit hM hb
    rwa [hv] at hvisit

theorem Iterates.calls_of_ne {x y : ℕ} (h : Iterates s x method place s') (hy : y ≠ x) :
    s'.calls y = s.calls y := by
  cases h <;> exact Function.update_of_ne hy ..

theorem Iterates.call {x : ℕ} (h : Iterates s x method place s') :
    ∃ phase, s'.calls x = some { method, phase } := by
  cases h <;> exact ⟨_, Function.update_self ..⟩

theorem Establishing.step (hE : Establishing c P s) (ha : OthersKeep c P s a)
    (h : step s a = some s') : Establishing c P s'
      ∧ (s.calls c ≠ s'.calls c → ∀ method, s'.calls c = some { method, phase := .resolved } →
        method.Establishes P → ∀ k v, s'.map.value k = some v → P v) := by
  rcases step_cases h with ⟨map, rfl, -, hkeep⟩ | ⟨x, method, place, rfl, hx⟩
  · refine ⟨⟨hE.others, fun method place hc hM => hkeep P place (fun u hu => ?_)
      (hE.behind method place hc hM)⟩, fun hne => absurd rfl hne⟩
    rcases hu with ⟨key, rfl | ⟨new, rfl⟩⟩ <;> exact ha
  · have hit := iterate_spec s x method place
    generalize iterate s x method place = t at hit ⊢
    obtain ⟨phase, hcall⟩ := hit.call
    by_cases hxc : x = c
    · subst hxc
      -- the call's own loop starts where all before has `P`
      have hb : method.Establishes P → s.map.Behind P place := fun hM => by
        rcases hx with ⟨-, -, rfl⟩ | ⟨-, hx⟩
        · exact s.map.behind_zero P
        · exact hE.behind method place hx hM
      have hmethod : ∀ {m p}, t.calls x = some { method := m, phase := p } → m = method :=
        fun hm => by
          rw [hcall] at hm
          cases hm
          rfl
      refine ⟨⟨fun y call hy hc => hE.others y call hy (hit.calls_of_ne hy ▸ hc), ?_⟩, ?_⟩
      · intro m place' hc hM
        obtain rfl := hmethod hc
        exact (hit.establishes hM (hb hM)).1 place' hc
      · intro _ m hc hM
        obtain rfl := hmethod hc
        exact (hit.establishes hM (hb hM)).2 hc
    · have hM : method.Keeps P := by
        rcases hx with ⟨rfl, -, -⟩ | ⟨-, hx⟩
        · exact ha hxc
        · exact hE.others x _ hxc hx
      have hcc := hit.calls_of_ne (Ne.symm hxc)
      refine ⟨⟨fun y call hy hc => ?_, fun m place' hc hM' => ?_⟩, fun hne => absurd hcc.symm hne⟩
      · by_cases hyx : y = x
        · subst hyx
          obtain rfl := Option.some.inj (hcall.symm.trans hc)
          exact hM
        · exact hE.others y call hy (hit.calls_of_ne hyx ▸ hc)
      · exact hit.behind hM (hE.behind m place' (hcc ▸ hc) hM')

/-- When a call of `updateAll` or `deleteAll` resolves, what it establishes of the records it goes
by holds of every record there is, if the updates of the others keep it. -/
theorem bulk_establishes {l : List (Action I R)} {s₀ : Sys I R} (hc : s₀.calls c = none)
    (h0 : ∀ x call, s₀.calls x = some call → call.method.Keeps P)
    (hl : (machine I R).Along (OthersKeep c P) s₀ l) (hr : (machine I R).run s₀ l = some s)
    (ha : OthersKeep c P s a) (hst : (machine I R).step s a = some s')
    (hM : method.Establishes P) (hne : s.calls c ≠ s'.calls c)
    (hres : s'.calls c = some { method, phase := .resolved }) :
    ∀ k v, s'.map.value k = some v → P v := by
  have h0' : Establishing c P s₀ := ⟨fun x call _ => h0 x call, fun _ _ h => by simp [hc] at h⟩
  have hE : Establishing c P s := Machine.run_invariant (I := Establishing c P)
    (fun _ _ _ hE ha hst => (hE.step ha hst).1) h0' hl hr
  exact (hE.step ha hst).2 hne method hres hM

/-! ### How often a record is updated -/

/-- The record of the key is not deleted. -/
def Stays (key : I) (s : Sys I R) (a : Action I R) : Prop :=
  ∀ s', step s a = some s' → key ∈ s.map.keys.toList → key ∈ s'.map.keys.toList

instance (key : I) (s : Sys I R) (a : Action I R) : Decidable (Stays key s a) :=
  match h : step s a with
  | none => isTrue fun _ hs => by cases h.symm.trans hs
  | some t => decidable_of_iff (key ∈ s.map.keys.toList → key ∈ t.map.keys.toList)
      ⟨fun hk _ hs => Option.some.inj (h.symm.trans hs) ▸ hk, fun hk => hk t h⟩

omit [ToString I] in
/-- A change of the map leaves a key that stays where it is. -/
theorem Changes.passed (h : Changes map map') (hi : place ≤ map.keys.entries.length)
    (hk : key ∈ map.keys.toList → key ∈ map'.keys.toList) :
    place ≤ map'.keys.entries.length
      ∧ (key ∈ map'.keys.passed place ↔ key ∈ map.keys.passed place) := by
  cases h with
  | refl => exact ⟨hi, Iff.rfl⟩
  | set key' value =>
    exact ⟨Nat.le_trans hi (LiveSet.le_length_add _ _), by
      rw [LiveMap.set_keys, LiveSet.passed_add key' hi]⟩
  | delete key' =>
    refine ⟨Nat.le_trans hi (Nat.le_of_eq (LiveSet.length_delete ..).symm), ?_⟩
    rw [LiveMap.delete_keys, LiveSet.passed_delete, (LiveSet.nodup_passed ..).mem_erase_iff]
    refine and_iff_right_of_imp fun hp he => ?_
    have hmem := hk ((LiveSet.mem_toList place).2 (.inl hp))
    have hnd : map.keys.toList.Nodup := map.keys.nodup
    rw [LiveMap.delete_keys, LiveSet.toList_delete, hnd.mem_erase_iff] at hmem
    exact hmem.1 he

/-- The call has visited the record of the key once if it is behind the iterator and the filter lets
everything through, at most once if the filter does not, and not if it is ahead. -/
structure Once (c : ℕ) (key : I) (s : Sys I R) : Prop where
  fresh : s.calls c = none → s.visits.count (c, key) = 0
  once : s.visits.count (c, key) ≤ 1
  iterating : ∀ method place, s.calls c = some { method, phase := .iterating place } →
    place ≤ s.map.keys.entries.length
    ∧ (0 < s.visits.count (c, key) → key ∈ s.map.keys.passed place)
    ∧ ((∀ r, method.filter r = .ok true) → key ∈ s.map.keys.passed place →
      s.visits.count (c, key) = 1)

theorem Iterates.changes {x : ℕ} (h : Iterates s x method place s') : Changes s.map s'.map := by
  cases h with
  | ends => exact .refl
  | @writes _ key _ hf hv | @fails _ key _ _ hf hv =>
    have hc := changes_visit method s.map key
    rwa [hv] at hc

omit [ToString I] in
/-- The loop comes to one record more, and not to one it has been at. -/
theorem count_visits {key' : I} {place' : ℕ} {stops : R → Bool}
    (hf : s.map.find stops place = some (key', place')) (hle : place ≤ s.map.keys.entries.length)
    (hp : 0 < s.visits.count (c, key) → key ∈ s.map.keys.passed place) :
    (s.visits ++ [(c, key')]).count (c, key) = s.visits.count (c, key) + (if key' = key then 1 else 0)
      ∧ (key' = key → s.visits.count (c, key) = 0) := by
  obtain ⟨skipped, hpassed, -⟩ := LiveSet.passed_of_find_eq_some hle hf
  have hnd := s.map.keys.nodup_passed place'
  rw [hpassed, List.append_assoc] at hnd
  refine ⟨by rw [List.count_append, List.count_singleton]; simp, fun he => ?_⟩
  by_contra hne
  exact (List.nodup_append.1 hnd).2.2 key (hp (by omega)) key (by simp [he]) rfl

/-- The call's own loop. -/
theorem Iterates.once (h : Iterates s c method place s')
    (hk : key ∈ s.map.keys.toList → key ∈ s'.map.keys.toList)
    (hle : place ≤ s.map.keys.entries.length)
    (hp : 0 < s.visits.count (c, key) → key ∈ s.map.keys.passed place)
    (hone : s.visits.count (c, key) ≤ 1)
    (hall : (∀ r, method.filter r = .ok true) → key ∈ s.map.keys.passed place →
      s.visits.count (c, key) = 1) :
    Once c key s' ∧ (s'.calls c = some { method, phase := .resolved } →
      (∀ r, method.filter r = .ok true) → key ∈ s'.map.keys.toList →
        s'.visits.count (c, key) = 1) := by
  -- with such a filter nothing is skipped
  have hskips : ∀ {k : I}, (∀ r, method.filter r = .ok true) → k ∈ s.map.keys.toList →
      (s.map.value k).any method.stops = true := fun {k} hfilter hmem => by
    obtain ⟨v, hv⟩ := LiveMap.exists_value hmem
    simp [hv, BulkMethod.stops, hfilter v]
  have hchanges := h.changes
  cases h with
  | ends hf =>
    refine ⟨⟨fun h => by simp at h, hone, fun _ _ h => by simp at h⟩, fun _ hfilter hmem => ?_⟩
    refine hall hfilter (((LiveSet.mem_toList place).1 hmem).resolve_right fun hrest => ?_)
    have hnot := LiveSet.rest_of_find_eq_none hf key hrest
    rw [hskips hfilter hmem] at hnot
    cases hnot
  | @fails map key' place' message hf hv =>
    obtain ⟨hcount, hz⟩ := count_visits hf hle hp
    refine ⟨⟨fun h => by simp at h, ?_, fun _ _ h => by simp at h⟩, fun h => by simp at h⟩
    rw [hcount]
    split_ifs with he
    · have := hz he
      omega
    · exact hone
  | @writes map key' place' hf hv =>
    obtain ⟨hcount, hz⟩ := count_visits hf hle hp
    obtain ⟨skipped, hpassed, hskip, -, hle'⟩ := LiveSet.passed_of_find_eq_some hle hf
    obtain ⟨hle'', hiff⟩ := hchanges.passed hle' hk
    refine ⟨⟨fun h => by simp at h, ?_, fun m place'' h => ?_⟩, fun h => by simp at h⟩
    · rw [hcount]
      split_ifs with he
      · have := hz he
        omega
      · exact hone
    · obtain ⟨rfl, rfl⟩ : method = m ∧ place' = place'' := by simpa using h
      refine ⟨hle'', ?_⟩
      rw [hiff, hcount, hpassed]
      split_ifs with he
      · have := hz he
        exact ⟨fun _ => by simp [he], fun _ _ => by omega⟩
      · refine ⟨fun hpos => by simp [hp hpos], fun hfilter hmem => hall hfilter ?_⟩
        have hmem' : key ∈ s.map.keys.toList :=
          (LiveSet.mem_toList place').2 (.inl (hpassed ▸ hmem))
        have hns : key ∉ skipped := fun hs => by
          have hnot := hskip key hs
          rw [hskips hfilter hmem'] at hnot
          cases hnot
        simpa [hns, Ne.symm he] using hmem

theorem Once.step (hO : Once c key s) (ha : Stays key s a) (h : step s a = some s') :
    Once c key s' ∧ (s.calls c ≠ s'.calls c → ∀ method,
      s'.calls c = some { method, phase := .resolved } → (∀ r, method.filter r = .ok true) →
        key ∈ s'.map.keys.toList → s'.visits.count (c, key) = 1) := by
  have hk := ha s' h
  rcases step_cases h with ⟨map, rfl, hchanges, -⟩ | ⟨x, method, place, rfl, hx⟩
  · refine ⟨⟨hO.fresh, hO.once, fun method place hc => ?_⟩, fun hne => absurd rfl hne⟩
    obtain ⟨hle, hp, hall⟩ := hO.iterating method place hc
    obtain ⟨hle', hiff⟩ := hchanges.passed hle hk
    exact ⟨hle', fun hpos => hiff.2 (hp hpos), fun hf hm => hall hf (hiff.1 hm)⟩
  · have hit := iterate_spec s x method place
    generalize iterate s x method place = t at hit hk ⊢
    by_cases hxc : x = c
    · subst hxc
      obtain ⟨phase, hcall⟩ := hit.call
      have honce : Once x key t ∧ (t.calls x = some { method, phase := .resolved } →
          (∀ r, method.filter r = .ok true) → key ∈ t.map.keys.toList →
            t.visits.count (x, key) = 1) := by
        rcases hx with ⟨-, hx, rfl⟩ | ⟨-, hx⟩
        · have hz := hO.fresh hx
          exact hit.once hk (Nat.zero_le _) (by omega) hO.once fun _ h => by simp at h
        · obtain ⟨hle, hp, hall⟩ := hO.iterating method place hx
          exact hit.once hk hle hp hO.once hall
      refine ⟨honce.1, fun _ m hc => ?_⟩
      obtain rfl : method = m := by
        rw [hcall] at hc
        cases hc
        rfl
      exact honce.2 hc
    · have hcc := hit.calls_of_ne (Ne.symm hxc)
      have hw : t.visits.count (c, key) = s.visits.count (c, key) := by
        cases hit with
        | ends => rfl
        | _ => simp [hxc]
      refine ⟨⟨fun hc => hw ▸ hO.fresh (hcc ▸ hc), hw ▸ hO.once, fun m place' hc => ?_⟩,
        fun hne => absurd hcc.symm hne⟩
      obtain ⟨hle, hp, hall⟩ := hO.iterating m place' (hcc ▸ hc)
      obtain ⟨hle', hiff⟩ := hit.changes.passed hle hk
      rw [hw, hiff]
      exact ⟨hle', hp, hall⟩

/-- A call that has not begun has visited nothing. -/
theorem reach_unvisited (h : (machine I R).Reach s) (hc : s.calls c = none) (key : I) :
    s.visits.count (c, key) = 0 := by
  refine h.invariant (P := fun s => s.calls c = none → s.visits.count (c, key) = 0)
    (fun s hs _ => by rw [hs.2, List.count_nil]) (fun s a s' ih _ hst => ?_) hc
  rcases step_cases hst with ⟨map, rfl, -⟩ | ⟨x, method, place, rfl, -⟩
  · exact ih
  · have hit := iterate_spec s x method place
    generalize iterate s x method place = t at hit ⊢
    intro hc
    obtain ⟨phase, hcall⟩ := hit.call
    have hxc : c ≠ x := fun h => by
      rw [h, hcall] at hc
      cases hc
    rw [hit.calls_of_ne hxc] at hc
    cases hit with
    | ends => exact ih hc
    | _ => simp [ih hc, Ne.symm hxc]

/-- A record that no one deletes while a call of `updateAll` runs is updated by it once at most, in
whatever state the call is or was left, and once by the time it resolves if there is no filter, also
if the record was created meanwhile. -/
theorem updated_once {l : List (Action I R)} {s₀ : Sys I R} (hc : s₀.calls c = none)
    (h0 : (machine I R).Reach s₀) (hl : (machine I R).Along (Stays key) s₀ l)
    (hr : (machine I R).run s₀ l = some s) :
    s.visits.count (c, key) ≤ 1
    ∧ ∀ a s' method, Stays key s a → (machine I R).step s a = some s' → s.calls c ≠ s'.calls c →
      s'.calls c = some { method, phase := .resolved } → (∀ r, method.filter r = .ok true) →
        key ∈ s'.map.keys.toList → s'.visits.count (c, key) = 1 := by
  have h0' : Once c key s₀ := by
    have hz := reach_unvisited h0 hc key
    exact ⟨fun _ => hz, by omega, fun _ _ h => by simp [hc] at h⟩
  have hO : Once c key s := Machine.run_invariant (I := Once c key)
    (fun _ _ _ hO ha hst => (hO.step ha hst).1) h0' hl hr
  exact ⟨hO.once, fun a s' method ha hst hne hres => (hO.step ha hst).2 hne method hres⟩

section Runs

/-- An update that adds to a number. -/
def addTo (n : ℕ) : Update ℕ := fun r => (r + n, none)

def everything : ℕ → Except String Bool := fun _ => .ok true

/-- While a call of `updateAll` waits after the first of two records, a third is created. -/
def updatedMeanwhile : List (Action ℕ ℕ) :=
  [.bulk 0 (.updateAll everything (addTo 10)), .create 3 7, .next 0, .next 0]

def twoRecords : Sys ℕ ℕ := { map := (LiveMap.empty.set 1 5).set 2 6 }

/-- The end of such a run. -/
theorem updatedMeanwhile_ends : ∃ s s' : Sys ℕ ℕ,
    (machine ℕ ℕ).run twoRecords updatedMeanwhile = some s
      ∧ (machine ℕ ℕ).step s (.next 0) = some s' ∧ s.calls 0 ≠ s'.calls 0
      ∧ s'.calls 0 = some { method := .updateAll everything (addTo 10), phase := .resolved }
      ∧ s'.map.keys.toList = [1, 2, 3] := by
  obtain ⟨s, s', hr, hst, hs, hres, hkeys⟩ : ∃ s s' : Sys ℕ ℕ,
      (machine ℕ ℕ).run twoRecords updatedMeanwhile = some s
      ∧ (machine ℕ ℕ).step s (.next 0) = some s'
      ∧ s.calls 0 = some { method := .updateAll everything (addTo 10), phase := .iterating 3 }
      ∧ s'.calls 0 = some { method := .updateAll everything (addTo 10), phase := .resolved }
      ∧ s'.map.keys.toList = [1, 2, 3] := ⟨_, _, rfl, rfl, rfl, rfl, rfl⟩
  exact ⟨s, s', hr, hst, by simp [hs, hres], hres, hkeys⟩

theorem bulk_establishes_meanwhile : ∃ s : Sys ℕ ℕ, s.map.keys.toList = [1, 2, 3]
    ∧ ∀ k v, s.map.value k = some v → 10 ≤ v := by
  obtain ⟨s, s', hr, hst, hne, hres, hkeys⟩ := updatedMeanwhile_ends
  have hl : (machine ℕ ℕ).Along (OthersKeep 0 (10 ≤ ·)) twoRecords updatedMeanwhile :=
    ⟨fun h => absurd rfl h, fun _ _ => ⟨trivial, fun _ _ => ⟨trivial, fun _ _ =>
      ⟨trivial, fun _ _ => trivial⟩⟩⟩⟩
  have hM : (BulkMethod.updateAll everything (addTo 10)).Establishes (10 ≤ ·) :=
    ⟨fun r h => (by cases h), fun r _ => Nat.le_add_left 10 r⟩
  exact ⟨s', hkeys, bulk_establishes (a := .next 0) rfl (fun _ _ h => by cases h) hl hr trivial hst
    hM hne hres⟩

theorem updated_once_meanwhile : ∃ s : Sys ℕ ℕ, s.visits.count (0, 3) = 1 := by
  obtain ⟨s, s', hr, hst, hne, hres, hkeys⟩ := updatedMeanwhile_ends
  have hl : (machine ℕ ℕ).Along (Stays 3) twoRecords updatedMeanwhile := by decide
  exact ⟨s', (updated_once rfl (.init ⟨rfl, rfl⟩) hl hr).2 (.next 0) s' _ (fun t ht _ => by
    obtain rfl := Option.some.inj (hst.symm.trans ht)
    simp [hkeys]) hst hne hres (fun _ => rfl) (by simp [hkeys])⟩

end Runs

end InMemoryViews

end NodeCqrs
