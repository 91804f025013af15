import Mathlib.Data.Fintype.EquivFin
import Mathlib.Logic.Relation
import Mathlib.Order.Monotone.Basic

/-!
# Descents

A recursion goes from a place to the places below it, on a stack of a given depth. Over finitely
many places, it returns on a stack that is deep enough if and only if it comes to no cycle, and each
place it comes to has what it needs itself (`Descent.returns_iff`).
-/

namespace Descent

open Relation (ReflTransGen TransGen)

variable {R : Type*} {child : R → R → Prop} {r : R}

/-- No place that a descent comes to is below itself. -/
def Acyclic (child : R → R → Prop) (r : R) : Prop :=
  ∀ x, ReflTransGen child r x → ¬TransGen child x x

theorem acyclic_of_acc (hacc : Acc (flip child) r) : Acyclic child r := by
  induction hacc with
  | intro r _ ih =>
    intro x hx hcycle
    obtain ⟨c, hc, hcx⟩ : ∃ c, child r c ∧ ReflTransGen child c x := by
      rcases hx.cases_head with rfl | hbelow
      · exact Relation.TransGen.head'_iff.1 hcycle
      · exact hbelow
    exact ih c hc x hcx hcycle

theorem Acyclic.acc [Finite R] (hr : Acyclic child r) : Acc (flip child) r := by
  let Below (y x : {x // ReflTransGen child r x}) : Prop := TransGen child x.1 y.1
  have : IsTrans _ Below := ⟨fun _ _ _ hab hbc => hbc.trans hab⟩
  have : Std.Irrefl Below := ⟨fun x => hr x.1 x.2⟩
  have hwf : WellFounded Below := Finite.wellFounded_of_trans_of_irrefl Below
  have hall : ∀ x : {x // ReflTransGen child r x}, Acc (flip child) x.1 := fun x => by
    induction x using hwf.induction with
    | _ x ih => exact ⟨_, fun y hy => ih ⟨y, x.2.tail hy⟩ (TransGen.single hy)⟩
  exact hall ⟨r, ReflTransGen.refl⟩

/-- What each of a list has from some number on, all have from some number on. -/
theorem exists_forall_mem {P : ℕ → R → Prop} (hP : ∀ r, Monotone (P · r)) :
    ∀ {l : List R}, (∀ c ∈ l, ∃ n, P n c) → ∃ n, ∀ c ∈ l, P n c
  | [], _ => ⟨0, by simp⟩
  | c :: l, hl => by
    obtain ⟨n, hn⟩ := hl c (List.mem_cons_self ..)
    obtain ⟨m, hm⟩ := exists_forall_mem hP fun c hc => hl c (List.mem_cons_of_mem _ hc)
    refine ⟨max n m, fun c' hc' => ?_⟩
    rcases List.mem_cons.1 hc' with rfl | hc'
    · exact hP _ (le_max_left n m) hn
    · exact hP c' (le_max_right n m) (hm c' hc')

section Returns

/-! `P n r` is that a call at `r` returns on a stack of depth `n`: it has what it needs itself, `Q`,
and each call below it returns. -/

variable {f : R → List R} {P Q : ℕ → R → Prop}
  (hzero : ∀ r, ¬P 0 r)
  (hsucc : ∀ n r, P (n + 1) r ↔ Q n r ∧ ∀ c ∈ f r, P n c)

include hzero hsucc

theorem of_returns {n : ℕ} (hr : P n r) : Acc (flip fun x c => c ∈ f x) r
    ∧ ∀ x, ReflTransGen (fun x c => c ∈ f x) r x → ∃ n, Q n x := by
  induction n generalizing r with
  | zero => exact absurd hr (hzero r)
  | succ n ih =>
    obtain ⟨hQ, hbelow⟩ := (hsucc n r).1 hr
    refine ⟨⟨_, fun c hc => (ih (hbelow c hc)).1⟩, fun x hx => ?_⟩
    rcases hx.cases_head with rfl | ⟨c, hc, hcx⟩
    · exact ⟨n, hQ⟩
    · exact (ih (hbelow c hc)).2 x hcx

variable (hQ : ∀ n r, Q n r → Q (n + 1) r)

include hQ

theorem returns_mono (r : R) : Monotone (P · r) := by
  have hstep : ∀ n r, P n r → P (n + 1) r := fun n => by
    induction n with
    | zero => exact fun r hr => absurd hr (hzero r)
    | succ n ih =>
      intro r hr
      obtain ⟨ho, hbelow⟩ := (hsucc n r).1 hr
      exact (hsucc (n + 1) r).2 ⟨hQ n r ho, fun c hc => ih c (hbelow c hc)⟩
  exact monotone_nat_of_le_succ fun n => hstep n r

theorem returns_of_acc (hacc : Acc (flip fun x c => c ∈ f x) r)
    (hall : ∀ x, ReflTransGen (fun x c => c ∈ f x) r x → ∃ n, Q n x) :
    ∃ n, P n r := by
  have hmono := returns_mono hzero hsucc hQ
  have hmono' : ∀ r, Monotone (Q · r) := fun r => monotone_nat_of_le_succ fun n => hQ n r
  induction hacc with
  | intro r _ ih =>
    obtain ⟨n, hn⟩ := exists_forall_mem hmono fun c hc =>
      ih c hc fun x hx => hall x (ReflTransGen.head hc hx)
    obtain ⟨m, hm⟩ := hall r ReflTransGen.refl
    refine ⟨max n m + 1, (hsucc _ r).2 ⟨hmono' r (le_max_right n m) hm, fun c hc => ?_⟩⟩
    exact hmono c (le_max_left n m) (hn c hc)

theorem returns_iff [Finite R] : (∃ n, P n r) ↔ Acyclic (fun x c => c ∈ f x) r
    ∧ ∀ x, ReflTransGen (fun x c => c ∈ f x) r x → ∃ n, Q n x := by
  constructor
  · rintro ⟨n, hr⟩
    obtain ⟨hacc, hall⟩ := of_returns hzero hsucc hr
    exact ⟨acyclic_of_acc hacc, hall⟩
  · rintro ⟨hacyclic, hall⟩
    exact returns_of_acc hzero hsucc hQ hacyclic.acc hall

end Returns

end Descent
