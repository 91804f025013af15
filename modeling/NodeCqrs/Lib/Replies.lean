import Mathlib.Data.List.Basic
import Mathlib.Data.List.Forall2
import Mathlib.Tactic.Common

/-!
# Replies to calls one after another

An object is what a call makes of its state, with the reply. If one simulates another call by call
(`Simulates`), the replies to any calls agree, as long as each call is one it simulates.
-/

namespace Replies

variable {σ τ C ρ ρ' : Type*}

/-- The state after the calls. -/
def after (perform : σ → C → ρ × σ) (s : σ) (calls : List C) : σ :=
  calls.foldl (fun s c => (perform s c).2) s

def replies (perform : σ → C → ρ × σ) : σ → List C → List ρ
  | _, [] => []
  | s, c :: calls => (perform s c).1 :: replies perform (perform s c).2 calls

/-- Each call meets the condition in the state it is made in. -/
def Along (perform : σ → C → ρ × σ) (ok : σ → C → Prop) : σ → List C → Prop
  | _, [] => True
  | s, c :: calls => ok s c ∧ Along perform ok (perform s c).2 calls

theorem along_of_forall {perform : σ → C → ρ × σ} {ok : C → Prop} :
    ∀ {calls : List C} (s : σ), (∀ c ∈ calls, ok c) → Along perform (fun _ => ok) s calls
  | [], _, _ => trivial
  | c :: _, _, h =>
    ⟨h c List.mem_cons_self, along_of_forall _ fun c hc => h c (List.mem_cons_of_mem _ hc)⟩

/-- A call that meets the condition is answered alike, and leaves related states related. -/
def Simulates (perform : σ → C → ρ × σ) (perform' : τ → C → ρ' × τ) (ok : σ → C → Prop)
    (alike : ρ → ρ' → Prop) (rel : σ → τ → Prop) : Prop :=
  ∀ s t c, rel s t → ok s c →
    alike (perform s c).1 (perform' t c).1 ∧ rel (perform s c).2 (perform' t c).2

theorem Simulates.replies {perform : σ → C → ρ × σ} {perform' : τ → C → ρ' × τ}
    {ok : σ → C → Prop} {alike : ρ → ρ' → Prop} {rel : σ → τ → Prop}
    (h : Simulates perform perform' ok alike rel) : ∀ {calls : List C} {s : σ} {t : τ},
    rel s t → Along perform ok s calls →
      List.Forall₂ alike (replies perform s calls) (replies perform' t calls)
  | [], _, _, _, _ => .nil
  | c :: _, s, t, hr, ha =>
    let ⟨halike, hr'⟩ := h s t c hr ha.1
    .cons halike (h.replies hr' ha.2)

end Replies
