import Mathlib.Logic.Basic

/-!
# Machines and their runs

A machine has initial states and a partial step function: an action either is enabled and says
what comes next, or is not. What a run meets is said of its steps (`ReachIf`), so a condition on
the environment is a condition on steps, and an invariant is what each such step keeps
(`ReachIf.invariant`).
-/

structure Machine (S A : Type*) where
  Init : S → Prop
  step : S → A → Option S

namespace Machine

variable {S A : Type*} (M : Machine S A)

/-- The state after the actions of a list, if each is enabled when its turn comes. -/
def run : S → List A → Option S
  | s, [] => some s
  | s, a :: l => (M.step s a).bind fun s' => run s' l

/-- The states reached from an initial one by steps that each meet `C`. -/
inductive ReachIf (C : S → A → Prop) : S → Prop
  | init {s : S} : M.Init s → ReachIf C s
  | step {s s' : S} (a : A) : ReachIf C s → C s a → M.step s a = some s' → ReachIf C s'

/-- The reachable states. -/
def Reach : S → Prop := M.ReachIf fun _ _ => True

variable {M}

/-- What holds at the start and is kept by each step that meets `C` holds at every state such
steps reach. -/
theorem ReachIf.invariant {C : S → A → Prop} {P : S → Prop} (h0 : ∀ s, M.Init s → P s)
    (hs : ∀ s a s', P s → C s a → M.step s a = some s' → P s') {s : S} (h : M.ReachIf C s) :
    P s := by
  induction h with
  | init h => exact h0 _ h
  | step _ _ hC hst ih => exact hs _ _ _ ih hC hst

theorem ReachIf.mono {C C' : S → A → Prop} (hC : ∀ s a, C s a → C' s a) {s : S}
    (h : M.ReachIf C s) : M.ReachIf C' s := by
  induction h with
  | init h => exact .init h
  | step a _ hc hst ih => exact ih.step a (hC _ _ hc) hst

theorem ReachIf.reach {C : S → A → Prop} {s : S} (h : M.ReachIf C s) : M.Reach s :=
  h.mono fun _ _ _ => trivial

/-- An invariant may use that the state it is kept at is reached. -/
theorem ReachIf.invariant_of_reach {C : S → A → Prop} {P : S → Prop} (h0 : ∀ s, M.Init s → P s)
    (hs : ∀ s a s', M.ReachIf C s → P s → C s a → M.step s a = some s' → P s') {s : S}
    (h : M.ReachIf C s) : P s := by
  induction h with
  | init h => exact h0 _ h
  | step _ hr hC hst ih => exact hs _ _ _ hr ih hC hst

/-- A condition on steps may be read with an invariant of the states they start from. -/
theorem ReachIf.mono_of_invariant {C C' : S → A → Prop} {P : S → Prop}
    (h0 : ∀ s, M.Init s → P s) (hs : ∀ s a s', P s → C s a → M.step s a = some s' → P s')
    (hC : ∀ s a, P s → C s a → C' s a) {s : S} (h : M.ReachIf C s) : M.ReachIf C' s := by
  induction h with
  | init h => exact .init h
  | step a hr hc hst ih => exact ih.step a (hC _ _ (hr.invariant h0 hs) hc) hst

@[simp] theorem run_nil (s : S) : M.run s [] = some s := rfl

@[simp] theorem run_cons (s : S) (a : A) (l : List A) :
    M.run s (a :: l) = (M.step s a).bind fun s' => M.run s' l := rfl

theorem run_append (l' : List A) : ∀ (l : List A) (s : S),
    M.run s (l ++ l') = (M.run s l).bind fun t => M.run t l'
  | [], _ => rfl
  | a :: l, s => by
    rw [List.cons_append, run_cons, run_cons]
    rcases M.step s a with _ | t
    · rfl
    · exact run_append l' l t

/-- Each step of the run meets `C`. -/
def Along (M : Machine S A) (C : S → A → Prop) : S → List A → Prop
  | _, [] => True
  | s, a :: l => C s a ∧ ∀ s', M.step s a = some s' → Along M C s' l

instance Along.decidable {C : S → A → Prop} [∀ s a, Decidable (C s a)] :
    ∀ (s : S) (l : List A), Decidable (M.Along C s l)
  | _, [] => inferInstanceAs (Decidable True)
  | s, a :: l =>
    match h : M.step s a with
    | none => decidable_of_iff (C s a) (by simp [Along, h])
    | some s' =>
      have : Decidable (M.Along C s' l) := decidable s' l
      decidable_of_iff (C s a ∧ M.Along C s' l) (by simp [Along, h])

/-- A condition that is met whatever the state is met all along. -/
theorem Along.of_forall {C : S → A → Prop} : ∀ {l : List A} {s : S}, (∀ a ∈ l, ∀ s, C s a) →
    M.Along C s l
  | [], _, _ => trivial
  | a :: _, s, h =>
    ⟨h a (List.mem_cons_self ..) s, fun _ _ =>
      of_forall fun a' ha' => h a' (List.mem_cons_of_mem a ha')⟩

theorem Along.and {C C' : S → A → Prop} : ∀ {l : List A} {s : S}, M.Along C s l → M.Along C' s l →
    M.Along (fun s a => C s a ∧ C' s a) s l
  | [], _, _, _ => trivial
  | _ :: _, _, h, h' => ⟨⟨h.1, h'.1⟩, fun s' hs => (h.2 s' hs).and (h'.2 s' hs)⟩

theorem ReachIf.run {C : S → A → Prop} : ∀ {l : List A} {s s' : S}, M.ReachIf C s →
    M.Along C s l → M.run s l = some s' → M.ReachIf C s'
  | [], s, s', h, _, hr => by
    simp only [run_nil, Option.some.injEq] at hr
    exact hr ▸ h
  | a :: l, s, s', h, hA, hr => by
    simp only [run_cons, Option.bind_eq_some_iff] at hr
    obtain ⟨t, hst, hr⟩ := hr
    exact ReachIf.run (h.step a hA.1 hst) (hA.2 t hst) hr

/-- A run from an initial state reaches its end. -/
theorem reach_of_run {s s' : S} {l : List A} (h0 : M.Init s) (hr : M.run s l = some s') :
    M.Reach s' :=
  (ReachIf.init h0).run (Along.of_forall fun _ _ _ => trivial) hr

/-- Where the steps that meet `C` are those after which `P` holds, `P` holds all along a run if and
only if each of its steps meets `C`. -/
theorem along_iff {C : S → A → Prop} {I P : S → Prop} (hP : ∀ s, I s → P s)
    (hs : ∀ s a s', I s → C s a → M.step s a = some s' → I s')
    (hC : ∀ s a s', I s → M.step s a = some s' → P s' → C s a) :
    ∀ {l : List A} {s s' : S}, I s → M.run s l = some s' →
      ((∀ l' t, l' <+: l → M.run s l' = some t → P t) ↔ M.Along C s l)
  | [], s, s', hi, _ => by
    refine ⟨fun _ => trivial, fun _ l' t hl ht => ?_⟩
    obtain rfl := List.prefix_nil.1 hl
    obtain rfl := Option.some.inj ht
    exact hP s hi
  | a :: l, s, s', hi, hr => by
    obtain ⟨u, hst, hu⟩ := Option.bind_eq_some_iff.1 hr
    have hcons : ∀ l', M.run s (a :: l') = M.run u l' := fun l' => by rw [run_cons, hst]; rfl
    constructor
    · intro h
      have ha : C s a := hC s a u hi hst
        (h [a] u (List.prefix_append [a] l) (by rw [hcons, run_nil]))
      refine ⟨ha, fun u' hu' => ?_⟩
      obtain rfl : u = u' := Option.some.inj (hst.symm.trans hu')
      refine (along_iff hP hs hC (hs s a u hi ha hst) hu).1 fun l' t hl ht => ?_
      exact h (a :: l') t (List.cons_prefix_cons.2 ⟨rfl, hl⟩) (by rw [hcons, ht])
    · rintro ⟨ha, hl⟩ l' t hl' ht
      rcases l' with _ | ⟨a', l'⟩
      · obtain rfl := Option.some.inj ht
        exact hP s hi
      · obtain ⟨rfl, hpre⟩ := List.cons_prefix_cons.1 hl'
        rw [hcons] at ht
        exact (along_iff hP hs hC (hs s a' u hi ha hst) hu).2 (hl u hst) l' t hpre ht

theorem run_invariant {C : S → A → Prop} {I : S → Prop}
    (hs : ∀ s a s', I s → C s a → M.step s a = some s' → I s') :
    ∀ {l : List A} {s s' : S}, I s → M.Along C s l → M.run s l = some s' → I s'
  | [], _, _, hi, _, hr => Option.some.inj hr ▸ hi
  | a :: _, s, _, hi, hC, hr => by
    obtain ⟨t, hst, hr⟩ := Option.bind_eq_some_iff.1 hr
    exact run_invariant hs (hs s a t hi hC.1 hst) (hC.2 t hst) hr

/-- What every step keeps. -/
theorem run_keeps {I : S → Prop} (hs : ∀ s a s', I s → M.step s a = some s' → I s') {l : List A}
    {s s' : S} (hi : I s) (hr : M.run s l = some s') : I s' :=
  run_invariant (C := fun _ _ => True) (fun s a s' hi _ hst => hs s a s' hi hst) hi
    (.of_forall fun _ _ _ => trivial) hr

/-- Where a step keeps `P`, which it never brings about, exactly if it meets `C'`, `P` holds at the
end of a run if and only if it held at the start and each step meets `C'`. -/
theorem run_iff {C C' : S → A → Prop} {I P : S → Prop}
    (hs : ∀ s a s', I s → C s a → M.step s a = some s' → I s')
    (hP : ∀ s a s', I s → C s a → M.step s a = some s' → (P s' ↔ P s ∧ C' s a)) :
    ∀ {l : List A} {s s' : S}, I s → M.Along C s l → M.run s l = some s' →
      (P s' ↔ P s ∧ M.Along C' s l)
  | [], _, _, _, _, hr => by
    obtain rfl := Option.some.inj hr
    exact (and_iff_left trivial).symm
  | a :: l, s, s', hi, hC, hr => by
    obtain ⟨t, hst, hr⟩ := Option.bind_eq_some_iff.1 hr
    rw [run_iff hs hP (hs s a t hi hC.1 hst) (hC.2 t hst) hr, hP s a t hi hC.1 hst, and_assoc]
    refine and_congr_right fun _ => and_congr_right fun _ =>
      ⟨fun hA t' ht' => ?_, fun hA => hA t hst⟩
    obtain rfl : t = t' := Option.some.inj (hst.symm.trans ht')
    exact hA

/-- Where every step keeps `P` exactly if it meets `C`. -/
theorem run_iff_along {C : S → A → Prop} {P : S → Prop}
    (hP : ∀ s a s', M.step s a = some s' → (P s' ↔ P s ∧ C s a)) {l : List A} {s s' : S}
    (hr : M.run s l = some s') : P s' ↔ P s ∧ M.Along C s l :=
  run_iff (C := fun _ _ => True) (I := fun _ => True) (fun _ _ _ _ _ _ => trivial)
    (fun s a s' _ _ hst => hP s a s' hst) trivial (.of_forall fun _ _ _ => trivial) hr

/-- Two conditions that say the same of a state with the invariant, which they keep, say the same
of a run. -/
theorem along_congr {C C' : S → A → Prop} {I : S → Prop}
    (hs : ∀ s a s', I s → C s a → M.step s a = some s' → I s')
    (hC : ∀ s a, I s → (C s a ↔ C' s a)) :
    ∀ {l : List A} {s : S}, I s → (M.Along C s l ↔ M.Along C' s l)
  | [], _, _ => Iff.rfl
  | a :: l, s, hi => by
    constructor
    · rintro ⟨ha, hl⟩
      exact ⟨(hC s a hi).1 ha, fun s' hst =>
        (along_congr hs hC (hs s a s' hi ha hst)).1 (hl s' hst)⟩
    · rintro ⟨ha', hl⟩
      have ha := (hC s a hi).2 ha'
      exact ⟨ha, fun s' hst => (along_congr hs hC (hs s a s' hi ha hst)).2 (hl s' hst)⟩

end Machine
