import Mathlib.Tactic.Common
import NodeCqrs.Utils.MapAssertable

/-!
# The entries of a key

`get` leaves the map as it is unless the key has a factory, which it calls (`get_eq`,
`get_of_factory`). `assert` is a `get` of a key that has been counted once more and, if it had
neither a value nor a factory, given the factory (`assert_eq`). Who asserts a key and releases it
once, when done, keeps the counts right (`Counted`).
-/

namespace NodeCqrs.MapAssertable

variable {K V F S : Type} [DecidableEq K] {m : MapAssertable K V F} {key : K}

/-- One more use of the key, which has a value or a factory from here on. -/
def use (m : MapAssertable K V F) (key : K) (factory : F) : MapAssertable K V F :=
  let m' := if m.has key then m else m.setLazy key factory
  { m' with usageCounter := Function.update m'.usageCounter key (m'.usageCounter key + 1) }

@[simp] theorem set_entries (m : MapAssertable K V F) (key : K) (value : V) :
    (m.set key value).entries = Function.update m.entries key (some value) := rfl

@[simp] theorem set_usageCounter (m : MapAssertable K V F) (key : K) (value : V) :
    (m.set key value).usageCounter = m.usageCounter := rfl

@[simp] theorem set_factories (m : MapAssertable K V F) (key : K) (value : V) :
    (m.set key value).factories = m.factories := rfl

@[simp] theorem setLazy_usageCounter (m : MapAssertable K V F) (key : K) (factory : F) :
    (m.setLazy key factory).usageCounter = m.usageCounter := rfl

@[simp] theorem setLazy_entries (m : MapAssertable K V F) (key : K) (factory : F) :
    (m.setLazy key factory).entries = Function.update m.entries key none := rfl

@[simp] theorem setLazy_factories (m : MapAssertable K V F) (key : K) (factory : F) :
    (m.setLazy key factory).factories = Function.update m.factories key (some factory) := by
  simp [setLazy, delete]

theorem get_eq {call : F → S → S × V} {s : S} (h : m.factories key = none) :
    get call m key s = (m, s, m.entries key) := by
  simp [get, h]

theorem get_of_factory {call : F → S → S × V} {s : S} {factory : F}
    (h : m.factories key = some factory) :
    get call m key s =
      ({ m with factories := Function.update m.factories key none }.set key (call factory s).2,
        (call factory s).1, some (call factory s).2) := by
  simp [get, h]

theorem assert_eq (call : F → S → S × V) (m : MapAssertable K V F) (key : K) (factory : F)
    (s : S) : assert call m key factory s = get call (m.use key factory) key s := by
  by_cases hk : m.has key
  · simp [assert, use, hk]
  · obtain ⟨he, hf⟩ : m.entries key = none ∧ m.factories key = none := by simpa [has] using hk
    simp [assert, use, hk, get, set, setLazy, delete, hf]

section use

variable (m key) (factory : F)

@[simp] theorem use_usageCounter :
    (m.use key factory).usageCounter =
      Function.update m.usageCounter key (m.usageCounter key + 1) := by
  by_cases hk : m.has key <;> simp [use, hk, setLazy, delete]

theorem use_entries : (m.use key factory).entries = m.entries := by
  by_cases hk : m.has key
  · simp [use, hk]
  · have he : m.entries key = none := by simp [has] at hk; exact hk.1
    simp [use, hk, setLazy, delete, Function.update_eq_self_iff, he]

theorem use_factories_ne {k : K} (hk : k ≠ key) :
    (m.use key factory).factories k = m.factories k := by
  by_cases h : m.has key <;> simp [use, h, setLazy, delete, hk]

theorem use_factories : (m.use key factory).factories key =
    if m.has key then m.factories key else some factory := by
  by_cases h : m.has key <;> simp [use, h, setLazy, delete]

theorem use_has : (m.use key factory).has key := by
  rcases he : m.entries key with _ | v <;> rcases hf : m.factories key with _ | f <;>
    simp [has, use_entries, use_factories, he, hf]

end use

/-- A key with a value is counted once more. -/
theorem assert_of_entry (call : F → S → S × V) (factory : F) (s : S) {value : V}
    (hf : m.factories key = none) (he : m.entries key = some value) :
    ∃ m', assert call m key factory s = (m', s, some value) ∧ m'.entries = m.entries
      ∧ m'.factories = m.factories := by
  have hk : m.has key := by simp [has, he]
  refine ⟨m.use key factory, ?_, use_entries m key factory, by simp [use, hk]⟩
  rw [assert_eq, get_eq (by simp [use, hk, hf]), use_entries, he]

/-- A key without one has its factory called. -/
theorem assert_of_absent (call : F → S → S × V) (factory : F) (s : S)
    (hf : m.factories key = none) (he : m.entries key = none) :
    ∃ m', assert call m key factory s = (m', (call factory s).1, some (call factory s).2)
      ∧ m'.entries = Function.update m.entries key (some (call factory s).2)
      ∧ m'.factories = m.factories := by
  have hk : ¬ m.has key := by simp [has, he, hf]
  have hfactory : (m.use key factory).factories key = some factory := by simp [use_factories, hk]
  rw [assert_eq, get_of_factory hfactory]
  refine ⟨_, rfl, by simp [use_entries], ?_⟩
  simp [use, hk, Function.update_eq_self_iff, hf]

section release

variable (m key)

theorem release_factories_eq (hf : ∀ k, m.factories k = none) :
    (m.release key).factories = m.factories := by
  have hk : Function.update m.factories key none = m.factories := by
    simp [Function.update_eq_self_iff, hf]
  simp only [release, delete]
  split_ifs
  · rfl
  · exact hk

theorem release_usageCounter : (m.release key).usageCounter =
    Function.update m.usageCounter key (m.usageCounter key - 1) := by
  simp only [release, delete]
  split_ifs with h
  · rfl
  · rw [show m.usageCounter key - 1 = 0 by omega]

theorem release_entries : (m.release key).entries =
    if 1 < m.usageCounter key then m.entries else Function.update m.entries key none := by
  have hlt : 0 < m.usageCounter key - 1 ↔ 1 < m.usageCounter key := by omega
  simp only [release, delete, hlt]
  split_ifs <;> rfl

theorem release_factories : (m.release key).factories =
    if 1 < m.usageCounter key then m.factories else Function.update m.factories key none := by
  have hlt : 0 < m.usageCounter key - 1 ↔ 1 < m.usageCounter key := by omega
  simp only [release, delete, hlt]
  split_ifs <;> rfl

/-- What is left was there. -/
theorem entries_of_release {k : K} {value : V} (h : (m.release key).entries k = some value) :
    m.entries k = some value := by
  rw [release_entries] at h
  split_ifs at h
  · exact h
  · by_cases hk : k = key
    · simp [hk] at h
    · simpa [hk] using h

theorem release_ne {k : K} (hk : k ≠ key) : (m.release key).entries k = m.entries k
    ∧ (m.release key).usageCounter k = m.usageCounter k
    ∧ (m.release key).factories k = m.factories k := by
  rw [release_entries, release_usageCounter, release_factories]
  split_ifs <;> simp [hk]

end release

section has_iff

variable (key) (h : ∀ k, m.has k ↔ 0 < m.usageCounter k)

include h

theorem use_has_iff (factory : F) (k : K) :
    (m.use key factory).has k ↔ 0 < (m.use key factory).usageCounter k := by
  by_cases hk : k = key
  · simp [hk, use_has]
  · simpa [has, use_entries, use_factories_ne _ _ _ hk, hk] using h k

theorem get_has_iff (call : F → S → S × V) (s : S) (k : K) :
    (get call m key s).1.has k ↔ 0 < (get call m key s).1.usageCounter k := by
  rcases hf : m.factories key with _ | factory
  · rw [get_eq hf]
    exact h k
  · rw [get_of_factory hf, set_usageCounter, ← h k]
    by_cases hk : k = key <;> simp [has, hk, hf]

theorem setLazy_has_iff (factory : F) (hpos : 0 < m.usageCounter key) (k : K) :
    (m.setLazy key factory).has k ↔ 0 < (m.setLazy key factory).usageCounter k := by
  by_cases hk : k = key
  · simpa [has, hk] using hpos
  · simpa [has, hk] using h k

theorem release_has_iff (k : K) : (m.release key).has k ↔ 0 < (m.release key).usageCounter k := by
  by_cases hk : k = key
  · subst hk
    have hiff := h k
    rw [release_usageCounter, Function.update_self]
    simp only [has, release_entries, release_factories] at hiff ⊢
    split_ifs with h1
    · rw [hiff]
      omega
    · simp
      omega
  · obtain ⟨h1, h2, h3⟩ := m.release_ne key hk
    simpa only [has, h1, h2, h3] using h k

end has_iff

/-- A key is counted once for each of its users, and is there as long as it has any. -/
structure Counted (m : MapAssertable K V F) (uses : K → ℕ → Prop) : Prop where
  usage : ∀ key, ∃ l : List ℕ,
    l.Nodup ∧ (∀ c, c ∈ l ↔ uses key c) ∧ m.usageCounter key = l.length
  has_iff : ∀ key, m.has key ↔ 0 < m.usageCounter key

namespace Counted

variable {uses uses' : K → ℕ → Prop} {c : ℕ}

omit [DecidableEq K] in
theorem congr (h : m.Counted uses) (hu : ∀ key c, uses' key c ↔ uses key c) :
    m.Counted uses' where
  usage key := by simpa only [hu] using h.usage key
  has_iff := h.has_iff

omit [DecidableEq K] in
theorem pos_of_uses (h : m.Counted uses) (hc : uses key c) : 0 < m.usageCounter key := by
  obtain ⟨l, -, hm, hl⟩ := h.usage key
  rw [hl]
  exact List.length_pos_of_mem ((hm c).2 hc)

omit [DecidableEq K] in
theorem exists_uses (h : m.Counted uses) (hk : m.has key) : ∃ c, uses key c := by
  obtain ⟨l, -, hm, hl⟩ := h.usage key
  obtain ⟨c, hc⟩ := List.exists_mem_of_length_pos (hl ▸ (h.has_iff key).1 hk)
  exact ⟨c, (hm c).1 hc⟩

omit [DecidableEq K] in
/-- A key no one uses is gone. -/
theorem empty_of_unused (h : m.Counted uses) (hc : ∀ c, ¬ uses key c) :
    m.entries key = none ∧ m.factories key = none := by
  obtain ⟨l, -, hm, hl⟩ := h.usage key
  have h0 : l = [] := List.eq_nil_iff_forall_not_mem.2 fun c hcl => hc c ((hm c).1 hcl)
  have hhas := mt (h.has_iff key).1 (by simp [hl, h0])
  simpa [has] using hhas

/-- A new user of the key. -/
theorem use (h : m.Counted uses) (factory : F) (hc : ¬ uses key c)
    (hu : ∀ key' c', uses' key' c' ↔ c' = c ∧ key' = key ∨ uses key' c') :
    (m.use key factory).Counted uses' where
  usage key' := by
    obtain ⟨l, hnd, hm, hl⟩ := h.usage key'
    by_cases hk : key' = key
    · subst hk
      have hcl : c ∉ l := fun hcl => hc ((hm c).1 hcl)
      exact ⟨c :: l, List.nodup_cons.2 ⟨hcl, hnd⟩, fun c' => by simp [hu, hm], by simp [hl]⟩
    · exact ⟨l, hnd, fun c' => by simp [hu, hm, hk], by simp [hk, hl]⟩
  has_iff := use_has_iff key h.has_iff factory

theorem get (h : m.Counted uses) (call : F → S → S × V) (key : K) (s : S) :
    (get call m key s).1.Counted uses where
  usage := by
    rcases hf : m.factories key with _ | factory
    · rw [get_eq hf]
      exact h.usage
    · rw [get_of_factory hf]
      exact h.usage
  has_iff := get_has_iff key h.has_iff call s

theorem assert (h : m.Counted uses) (call : F → S → S × V) (factory : F) (s : S)
    (hc : ¬ uses key c)
    (hu : ∀ key' c', uses' key' c' ↔ c' = c ∧ key' = key ∨ uses key' c') :
    (assert call m key factory s).1.Counted uses' := by
  rw [assert_eq]
  exact (h.use factory hc hu).get call key s

/-- A user resets its key. -/
theorem setLazy (h : m.Counted uses) (factory : F) (hc : uses key c) :
    (m.setLazy key factory).Counted uses where
  usage := h.usage
  has_iff := setLazy_has_iff key h.has_iff factory (h.pos_of_uses hc)

/-- A user is done. -/
theorem release (h : m.Counted uses) (hc : uses key c)
    (hu : ∀ key' c', uses' key' c' ↔ ¬ (c' = c ∧ key' = key) ∧ uses key' c') :
    (m.release key).Counted uses' where
  usage key' := by
    obtain ⟨l, hnd, hm, hl⟩ := h.usage key'
    by_cases hk : key' = key
    · subst hk
      refine ⟨l.erase c, hnd.erase c, fun c' => by simp [hnd.mem_erase_iff, hu, hm], ?_⟩
      simp [release_usageCounter, hl, List.length_erase_of_mem ((hm c).2 hc)]
    · refine ⟨l, hnd, fun c' => by simp [hu, hm, hk], ?_⟩
      rw [(m.release_ne key hk).2.1, hl]
  has_iff := release_has_iff key h.has_iff

end Counted

end NodeCqrs.MapAssertable
