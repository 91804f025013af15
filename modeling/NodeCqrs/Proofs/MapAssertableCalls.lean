import NodeCqrs.Proofs.MapAssertable
import NodeCqrs.Utils.MapAssertableCalls

/-!
# A cell for each key

A key is in use from an `assert` to the last `release`. Its value, or the factory in the value's
place, is the last one installed, and the key has been in use since (`Kept`).
-/

namespace NodeCqrs.MapAssertableCalls

open History (Explained Since explained_nil explained_concat mem_of_mem_concat)

variable {K V F S : Type} [DecidableEq K] {h : List (Entry K V F)} {e : Entry K V F} {k key : K}
  {n next : ℕ} {f : F} {v : V}

theorem asserts_concat : asserts k (h ++ [e]) = asserts k h + match e with
    | .assert key => if key = k then 1 else 0
    | _ => 0 := by
  cases e <;> simp [asserts, List.countP_append, List.countP_cons]

theorem releases_concat : releases k (h ++ [e]) = releases k h + match e with
    | .release key => if key = k then 1 else 0
    | _ => 0 := by
  cases e <;> simp [releases, List.countP_append, List.countP_cons]

/-- The key is in use. -/
def InUse (k : K) (h : List (Entry K V F)) : Prop := releases k h < asserts k h

/-- An entry that is neither an `assert` nor a `release`. -/
def Entry.Uncounted : Entry K V F → Prop
  | .installed _ _ _ | .invoked _ _ | .returned _ _ => True
  | .assert _ | .release _ => False

theorem InUse.concat (hu : InUse k h) (he : e.Uncounted) : InUse k (h ++ [e]) := by
  rw [InUse, asserts_concat, releases_concat]
  cases e with
  | installed | invoked | returned => exact hu
  | assert | release => exact he.elim

/-- The factory is the last one installed for the key, which has been in use since. -/
def Current (h : List (Entry K V F)) (k : K) (n : ℕ) (f : F) : Prop :=
  ∃ post, Since (fun e => ∃ n f, e = .installed k n f) (InUse k) h (.installed k n f) post

theorem Current.concat (hc : Current h k n f) (he : ∀ n f, e ≠ .installed k n f)
    (hu : InUse k (h ++ [e])) : Current (h ++ [e]) k n f := by
  obtain ⟨post, hs⟩ := hc
  exact ⟨post ++ [e], hs.concat (by rintro ⟨n, f, rfl⟩; exact he n f rfl) hu⟩

theorem Current.inUse (hc : Current h k n f) : InUse k h := hc.choose_spec.hold_self

theorem Current.mem (hc : Current h k n f) : .installed k n f ∈ h := hc.choose_spec.mem

/-- A factory is invoked once, while it is the last one installed and the key is in use. So is the
one whose value is returned, if the key is in use. -/
def Ok (call : F → S → S × V) (pre : List (Entry K V F)) : Entry K V F → Prop
  | .invoked n v => (∀ v', .invoked n v' ∉ pre) ∧ ∃ k f s, Current pre k n f ∧ (call f s).2 = v
  | .returned k (some (n, v)) => (∃ f, Current pre k n f) ∧ .invoked n v ∈ pre
  | .returned k none => ¬InUse k pre
  | .assert _ | .installed _ _ _ | .release _ => True

/-- What the map has for the keys, as the history tells it. -/
structure Kept (call : F → S → S × V) (m : MapAssertable K (ℕ × V) (ℕ × F))
    (h : List (Entry K V F)) (next : ℕ) : Prop where
  count : ∀ k, m.usageCounter k + releases k h = asserts k h
  entry : ∀ k n v, m.entries k = some (n, v) →
    m.factories k = none ∧ (∃ f, Current h k n f) ∧ .invoked n v ∈ h
  factory : ∀ k n f, m.factories k = some (n, f) → Current h k n f ∧ ∀ v, .invoked n v ∉ h
  installed_lt : ∀ k n f, .installed k n f ∈ h → n < next
  invoked_lt : ∀ n v, .invoked n v ∈ h → n < next
  key : ∀ k k' n f f', .installed k n f ∈ h → .installed k' n f' ∈ h → k = k'
  explained : Explained (Ok call) h

namespace Kept

variable {call : F → S → S × V} {m : MapAssertable K (ℕ × V) (ℕ × F)}

theorem count_concat (hk : Kept call m h next) (he : e.Uncounted) (k : K) :
    m.usageCounter k + releases k (h ++ [e]) = asserts k (h ++ [e]) := by
  rw [asserts_concat, releases_concat]
  cases e with
  | installed | invoked | returned => exact hk.count k
  | assert | release => exact he.elim

theorem inUse_iff (hk : Kept call m h next) : InUse k h ↔ 0 < m.usageCounter k := by
  have hcount := hk.count k
  unfold InUse
  omega

/-- An entry that is about neither what is installed nor what is invoked. -/
theorem concat {usageCounter : K → ℕ} (hk : Kept call m h next)
    (hcount : ∀ k, usageCounter k + releases k (h ++ [e]) = asserts k (h ++ [e]))
    (huse : ∀ k, m.has k → 0 < usageCounter k)
    (hinstalled : ∀ k n f, e ≠ .installed k n f) (hinvoked : ∀ n v, e ≠ .invoked n v)
    (hok : Ok call h e) : Kept call { m with usageCounter } (h ++ [e]) next := by
  have hcurrent : ∀ {k n f}, m.has k → Current h k n f → Current (h ++ [e]) k n f :=
    fun {k n f} hhas hc => hc.concat (hinstalled k) (by
      have hpos := huse k hhas
      have hcount := hcount k
      unfold InUse
      omega)
  have hmem : ∀ {k n f}, .installed k n f ∈ h ++ [e] → .installed k n f ∈ h := fun hm =>
    mem_of_mem_concat hm (hinstalled _ _ _).symm
  have hmem' : ∀ {n v}, .invoked n v ∈ h ++ [e] → .invoked n v ∈ h := fun hm =>
    mem_of_mem_concat hm (hinvoked _ _).symm
  refine ⟨hcount, fun k n v he => ?_, fun k n f hf => ?_, fun k n f hm => hk.installed_lt k n f
    (hmem hm), fun n v hm => hk.invoked_lt n v (hmem' hm), fun k k' n f f' hm hm' =>
    hk.key k k' n f f' (hmem hm) (hmem hm'), explained_concat.2 ⟨hk.explained, hok⟩⟩
  · dsimp only at he
    obtain ⟨hnone, ⟨f, hc⟩, hv⟩ := hk.entry k n v he
    have hhas : m.has k := by simp [MapAssertable.has, he]
    exact ⟨hnone, ⟨f, hcurrent hhas hc⟩, List.mem_append_left _ hv⟩
  · dsimp only at hf
    obtain ⟨hc, hv⟩ := hk.factory k n f hf
    have hhas : m.has k := by simp [MapAssertable.has, hf]
    exact ⟨hcurrent hhas hc, fun v hm => hv v (hmem' hm)⟩

theorem delete (hk : Kept call m h next) (key : K) : Kept call (m.delete key) h next where
  count := hk.count
  entry k n v he := by
    by_cases hkey : k = key
    · simp [MapAssertable.delete, hkey] at he
    · simp only [MapAssertable.delete, Function.update_of_ne hkey] at he ⊢
      exact hk.entry k n v he
  factory k n f hf := by
    by_cases hkey : k = key
    · simp [MapAssertable.delete, hkey] at hf
    · simp only [MapAssertable.delete, Function.update_of_ne hkey] at hf
      exact hk.factory k n f hf
  installed_lt := hk.installed_lt
  invoked_lt := hk.invoked_lt
  key := hk.key
  explained := hk.explained

/-- `setLazy` -/
theorem install (hk : Kept call m h next) (hu : InUse key h) (f : F) :
    Kept call (m.setLazy key (next, f)) (h ++ [.installed key next f]) (next + 1) := by
  have hcurrent : ∀ {k n f'}, k ≠ key → Current h k n f' →
      Current (h ++ [.installed key next f]) k n f' := fun {k n f'} hne hc =>
    hc.concat (by rintro n f ⟨⟩; exact hne rfl) (hc.inUse.concat trivial)
  have hmem : ∀ {k n f'}, .installed k n f' ∈ h ++ [.installed key next f] →
      .installed k n f' ∈ h ∨ k = key ∧ n = next := fun hm => by
    rcases List.mem_append.1 hm with hm | hm
    · exact .inl hm
    · cases List.mem_singleton.1 hm
      exact .inr ⟨rfl, rfl⟩
  have hmem' : ∀ {n v}, .invoked n v ∈ h ++ [.installed key next f] → .invoked n v ∈ h :=
    fun hm => mem_of_mem_concat hm nofun
  refine ⟨hk.count_concat trivial, fun k n v he => ?_, fun k n f' hf => ?_, fun k n f' hm => ?_,
    fun n v hm => Nat.lt_succ_of_lt (hk.invoked_lt n v (hmem' hm)),
    fun k k' n f' f'' hm hm' => ?_, explained_concat.2 ⟨hk.explained, trivial⟩⟩
  · by_cases hkey : k = key
    · simp [hkey] at he
    · rw [MapAssertable.setLazy_entries, Function.update_of_ne hkey] at he
      obtain ⟨hnone, ⟨f', hc⟩, hv⟩ := hk.entry k n v he
      rw [MapAssertable.setLazy_factories, Function.update_of_ne hkey]
      exact ⟨hnone, ⟨f', hcurrent hkey hc⟩, List.mem_append_left _ hv⟩
  · rw [MapAssertable.setLazy_factories] at hf
    by_cases hkey : k = key
    · subst hkey
      rw [Function.update_self] at hf
      cases hf
      exact ⟨⟨[], .new (hu.concat trivial)⟩,
        fun v hm => Nat.lt_irrefl _ (hk.invoked_lt _ v (hmem' hm))⟩
    · rw [Function.update_of_ne hkey] at hf
      obtain ⟨hc, hv⟩ := hk.factory k n f' hf
      exact ⟨hcurrent hkey hc, fun v hm => hv v (hmem' hm)⟩
  · rcases hmem hm with hin | ⟨-, rfl⟩
    · exact Nat.lt_succ_of_lt (hk.installed_lt k n f' hin)
    · exact Nat.lt_succ_self _
  · rcases hmem hm with hin | ⟨hkey, hn⟩ <;> rcases hmem hm' with hin' | ⟨hkey', hn'⟩
    · exact hk.key k k' n f' f'' hin hin'
    · exact absurd (hk.installed_lt k n f' hin) (hn' ▸ Nat.lt_irrefl n)
    · exact absurd (hk.installed_lt k' n f'' hin') (hn ▸ Nat.lt_irrefl n)
    · exact hkey.trans hkey'.symm

/-- `get` calls the factory in the value's place. -/
theorem invoke (hk : Kept call m h next) (hf : m.factories key = some (n, f)) (s : S) :
    Kept call ({ m with factories := Function.update m.factories key none }.set key
      (n, (call f s).2)) (h ++ [.invoked n (call f s).2]) next := by
  obtain ⟨hc, hnot⟩ := hk.factory key n f hf
  have hcurrent : ∀ {k n' f'}, Current h k n' f' →
      Current (h ++ [.invoked n (call f s).2]) k n' f' := fun {k n' f'} hc =>
    hc.concat (by rintro n f ⟨⟩) (hc.inUse.concat trivial)
  have hmem : ∀ {k n' f'}, .installed k n' f' ∈ h ++ [.invoked n (call f s).2] →
      .installed k n' f' ∈ h := fun hm => mem_of_mem_concat hm nofun
  refine ⟨hk.count_concat trivial, fun k n' v he => ?_, fun k n' f' hf' => ?_,
    fun k n' f' hm => hk.installed_lt k n' f' (hmem hm), fun n' v hm => ?_,
    fun k k' n' f' f'' hm hm' => hk.key k k' n' f' f'' (hmem hm) (hmem hm'),
    explained_concat.2 ⟨hk.explained, hnot, key, f, s, hc, rfl⟩⟩
  · by_cases hkey : k = key
    · subst hkey
      simp only [MapAssertable.set_entries, Function.update_self, Option.some.injEq,
        Prod.mk.injEq] at he
      obtain ⟨rfl, rfl⟩ := he
      exact ⟨by simp, ⟨f, hcurrent hc⟩, by simp⟩
    · simp only [MapAssertable.set_entries, MapAssertable.set_factories,
        Function.update_of_ne hkey] at he ⊢
      obtain ⟨hnone, ⟨f', hc'⟩, hv⟩ := hk.entry k n' v he
      exact ⟨hnone, ⟨f', hcurrent hc'⟩, List.mem_append_left _ hv⟩
  · by_cases hkey : k = key
    · simp [hkey] at hf'
    · simp only [MapAssertable.set_factories, Function.update_of_ne hkey] at hf'
      obtain ⟨hc', hnot'⟩ := hk.factory k n' f' hf'
      refine ⟨hcurrent hc', fun v hm => ?_⟩
      rcases List.mem_append.1 hm with hm | hm
      · exact hnot' v hm
      · cases List.mem_singleton.1 hm
        exact hkey (hk.key k key n f' f hc'.mem hc.mem)
  · rcases List.mem_append.1 hm with hm | hm
    · exact hk.invoked_lt n' v hm
    · cases List.mem_singleton.1 hm
      exact hk.installed_lt key n f hc.mem

/-- `get` returns what it should. -/
theorem get (hk : Kept call m h next) (hhas : ∀ k, m.has k ↔ 0 < m.usageCounter k) (key : K)
    (s : S) :
    Kept call (m.get (MapAssertableCalls.invoke call) key (s, h)).1
      ((m.get (MapAssertableCalls.invoke call) key (s, h)).2.1.2
        ++ [.returned key (m.get (MapAssertableCalls.invoke call) key (s, h)).2.2]) next := by
  have hhas' := MapAssertable.get_has_iff key hhas (MapAssertableCalls.invoke call) (s, h)
  rcases hf : m.factories key with _ | ⟨n, f⟩
  · rw [MapAssertable.get_eq hf]
    refine hk.concat (hk.count_concat trivial) (fun k => (hhas k).1) (by simp) (by simp) ?_
    rcases he : m.entries key with _ | ⟨n, v⟩
    · refine mt hk.inUse_iff.1 (mt (hhas key).2 ?_)
      simp [MapAssertable.has, he, hf]
    · exact (hk.entry key n v he).2
  · rw [MapAssertable.get_of_factory hf] at hhas' ⊢
    have hinvoke := hk.invoke hf s
    exact hinvoke.concat (hinvoke.count_concat trivial) (fun k => (hhas' k).1) (by simp) (by simp)
      (hinvoke.entry key n (call f s).2 (by simp)).2

/-- `assert` counts the key, and installs its factory if the key is not there. -/
theorem use (hk : Kept call m h next) (hhas : ∀ k, m.has k ↔ 0 < m.usageCounter k) (key : K)
    (f : F) :
    Kept call (m.use key (next, f)) (if m.has key then h ++ [.assert key]
      else h ++ [.assert key] ++ [.installed key next f]) (next + 1) := by
  have hcount : Kept call { m with
      usageCounter := Function.update m.usageCounter key (m.usageCounter key + 1) }
      (h ++ [.assert key]) next := by
    refine hk.concat (fun k => ?_) (fun k hhas' => ?_) (by simp) (by simp) trivial
    · have hcount := hk.count k
      rw [asserts_concat, releases_concat]
      by_cases hkey : k = key
      · subst hkey
        simp only [Function.update_self, if_true]
        omega
      · simp only [Function.update_of_ne hkey, if_neg (Ne.symm hkey)]
        exact hcount
    · by_cases hkey : k = key
      · simp [hkey]
      · rw [Function.update_of_ne hkey]
        exact (hhas k).1 hhas'
  by_cases hin : m.has key
  · rw [if_pos hin, MapAssertable.use, if_pos hin]
    exact { hcount with
      installed_lt := fun k n f hm => Nat.lt_succ_of_lt (hcount.installed_lt k n f hm)
      invoked_lt := fun n v hm => Nat.lt_succ_of_lt (hcount.invoked_lt n v hm) }
  · rw [if_neg hin, MapAssertable.use, if_neg hin]
    exact hcount.install (hcount.inUse_iff.2 (by simp)) f

theorem release (hk : Kept call m h next) (hhas : ∀ k, m.has k ↔ 0 < m.usageCounter k)
    (hu : InUse key h) : Kept call (m.release key) (h ++ [.release key]) next := by
  have hpos := hk.inUse_iff.1 hu
  have hhas' := MapAssertable.release_has_iff key hhas
  obtain ⟨m', hk', he⟩ : ∃ m', Kept call m' h next ∧ m.release key = { m' with
      usageCounter := Function.update m.usageCounter key (m.usageCounter key - 1) } := by
    unfold MapAssertable.release
    by_cases hlast : 0 < m.usageCounter key - 1
    · exact ⟨m, hk, if_pos hlast⟩
    · refine ⟨m.delete key, hk.delete key, ?_⟩
      rw [Nat.eq_zero_of_not_pos hlast]
      rfl
  rw [he] at hhas' ⊢
  refine hk'.concat (fun k => ?_) (fun k => (hhas' k).1) (by simp) (by simp) trivial
  have hcount := hk.count k
  rw [asserts_concat, releases_concat]
  by_cases hkey : k = key
  · subst hkey
    simp only [Function.update_self, if_true]
    omega
  · simp only [Function.update_of_ne hkey, if_neg (Ne.symm hkey)]
    exact hcount

end Kept

variable {call : F → S → S × V} {s s' : Sys K V F S}

def Inv (call : F → S → S × V) (s : Sys K V F S) : Prop :=
  Kept call s.map s.history s.next ∧ ∀ k, s.map.has k ↔ 0 < s.map.usageCounter k

theorem inv_init {surroundings : S} : Inv call ({ surroundings } : Sys K V F S) := by
  constructor
  · constructor <;> simp [asserts, releases, explained_nil]
  · simp [MapAssertable.has]

theorem inv_step {a : Action K F} (hi : Inv call s) (hd : Disciplined s a)
    (hst : step call s a = some s') : Inv call s' := by
  obtain ⟨hk, hhas⟩ := hi
  cases a with
  | assert key f =>
    simp only [step, MapAssertable.assert_eq] at hst
    obtain rfl := Option.some.inj hst
    have hhas' := MapAssertable.use_has_iff key hhas (s.next, f)
    exact ⟨(hk.use hhas key f).get hhas' key s.surroundings,
      MapAssertable.get_has_iff key hhas' (invoke call) (s.surroundings, _)⟩
  | setLazy key f =>
    obtain rfl := Option.some.inj hst
    exact ⟨hk.install hd f, MapAssertable.setLazy_has_iff key hhas _ (hk.inUse_iff.1 hd)⟩
  | get key =>
    obtain rfl := Option.some.inj hst
    exact ⟨hk.get hhas key s.surroundings,
      MapAssertable.get_has_iff key hhas (invoke call) (s.surroundings, s.history)⟩
  | has key =>
    obtain rfl := Option.some.inj hst
    exact ⟨hk, hhas⟩
  | release key =>
    obtain rfl := Option.some.inj hst
    exact ⟨hk.release hhas hd, MapAssertable.release_has_iff key hhas⟩

/-- In every run with no more releases than asserts, and `setLazy` only while a key is in use, a key
is there while it is in use, and has a value or a factory, not both. A factory is invoked once at
most, while it is the last one installed and the key has been in use since, and the value that is
returned is that of the last one installed. -/
theorem refcounted {surroundings : S} {l : List (Action K F)}
    (hd : (machine call).Along Disciplined ({ surroundings } : Sys K V F S) l)
    (h : (machine call).run { surroundings } l = some s) :
    (∀ key, s.map.has key ↔ InUse key s.history)
    ∧ (∀ key, ¬((s.map.entries key).isSome ∧ (s.map.factories key).isSome))
    ∧ Explained (Ok call) s.history := by
  obtain ⟨hk, hhas⟩ : Inv call s := Machine.run_invariant (M := machine call)
    (fun _ _ _ hi hd hst => inv_step hi hd hst) inv_init hd h
  refine ⟨fun key => (hhas key).trans hk.inUse_iff.symm, fun key ⟨he, hf⟩ => ?_, hk.explained⟩
  obtain ⟨⟨n, v⟩, he⟩ := Option.isSome_iff_exists.1 he
  rw [(hk.entry key n v he).1] at hf
  cases hf

section Runs

/-- A factory returns its own number, and its calls are counted. -/
def counting (factory calls : ℕ) : ℕ × ℕ := (calls + 1, factory)

/-- A value is made, replaced twice, read, and released by both that use it. -/
theorem refcounted_replaced : ∃ s, (machine counting).run ({ surroundings := 0 } : Sys String ℕ ℕ ℕ)
      [.assert "saga" 10, .assert "saga" 11, .setLazy "saga" 12, .setLazy "saga" 13, .get "saga",
        .release "saga", .has "saga", .release "saga", .get "saga"] = some s
    ∧ s.surroundings = 2 ∧ s.history.drop 8 = [.invoked 3 13, .returned "saga" (some (3, 13)),
      .release "saga", .release "saga", .returned "saga" none]
    ∧ Explained (Ok counting) s.history := by
  have hrun : (machine counting).run ({ surroundings := 0 } : Sys String ℕ ℕ ℕ)
      [.assert "saga" 10, .assert "saga" 11, .setLazy "saga" 12, .setLazy "saga" 13, .get "saga",
        .release "saga", .has "saga", .release "saga", .get "saga"] = some _ := rfl
  exact ⟨_, hrun, rfl, rfl, (refcounted (by decide) hrun).2.2⟩

end Runs

end NodeCqrs.MapAssertableCalls
