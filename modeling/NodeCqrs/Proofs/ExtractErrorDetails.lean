import NodeCqrs.Lib.Descent
import NodeCqrs.RabbitMq.Consumer
import NodeCqrs.Utils.ExtractErrorDetails

/-!
# Errors that come back to themselves

The details descend from an error to its cause, and each message to the errors that are aggregated.
Neither looks for an error it has been at, so both return if and only if they come to no cycle, and
to no object that has no text (`extracts_iff`). Otherwise the consumer does not get to reject the
message.
-/

namespace NodeCqrs

open Descent (Acyclic)
open Relation (ReflTransGen TransGen)

namespace ExtractErrorDetails

variable {R C : Type} {graph : R → Value R C} {err : R} {n : ℕ}

/-- `String` does not throw on it, or is not called. -/
def Value.Printable : Value R C → Prop
  | .object o => (o.message <|> o.text).isSome
  | .error _ | .primitive _ _ => True

/-- An error has another as its cause. -/
def CausedBy (graph : R → Value R C) (x y : R) : Prop := cause graph x = some y

/-- An error aggregates another. -/
def Aggregates (graph : R → Value R C) (x y : R) : Prop := y ∈ (graph x).errors

theorem mapM_isSome {α β : Type} {f : α → Option β} :
    ∀ {l : List α}, (l.mapM f).isSome ↔ ∀ a ∈ l, (f a).isSome
  | [] => by simp
  | a :: l => by
    have ih := mapM_isSome (f := f) (l := l)
    rw [List.forall_mem_cons, ← ih, List.mapM_cons]
    rcases f a with _ | b
    · simp
    · rcases l.mapM f with _ | bs <;> simp

theorem mapM_mono {α β : Type} {f g : α → Option β} (hfg : ∀ a b, f a = some b → g a = some b) :
    ∀ {l : List α} {bs : List β}, l.mapM f = some bs → l.mapM g = some bs
  | [], _, h => h
  | a :: l, bs, h => by
    rw [List.mapM_cons] at h ⊢
    obtain ⟨b, hb, h⟩ := Option.bind_eq_some_iff.1 h
    obtain ⟨bs', hbs, h⟩ := Option.bind_eq_some_iff.1 h
    rw [hfg a b hb, mapM_mono hfg hbs]
    exact h

theorem extractErrorMessage_isSome : (extractErrorMessage graph (n + 1) err).isSome ↔
    (graph err).Printable ∧ ∀ c ∈ (graph err).errors, (extractErrorMessage graph n c).isSome := by
  rw [extractErrorMessage, ← mapM_isSome]
  rcases hg : graph err with e | o | ⟨text, truthy⟩
  · dsimp only
    split_ifs with hnil
    · simp [hnil, Value.Printable]
    · rcases (Value.error e).errors.mapM (extractErrorMessage graph n) with _ | messages <;>
        simp [Value.Printable]
  · simp [Value.Printable, Value.errors]
  · simp [Value.Printable, Value.errors]

theorem extractErrorDetails_isSome : (extractErrorDetails graph (n + 1) err).isSome ↔
    (extractErrorMessage graph n err).isSome
    ∧ ∀ c ∈ (cause graph err).toList, (extractErrorDetails graph n c).isSome := by
  rw [extractErrorDetails]
  rcases extractErrorMessage graph n err with _ | message
  · simp
  · rcases cause graph err with _ | c
    · simp
    · rcases hc : extractErrorDetails graph n c with _ | details <;> simp [hc]

/-- A deeper stack makes no difference to a call that returns. -/
theorem extractErrorMessage_succ : ∀ {n : ℕ} {err : R} {message : String},
    extractErrorMessage graph n err = some message →
      extractErrorMessage graph (n + 1) err = some message
  | n + 1, err, message, h => by
    rw [extractErrorMessage] at h ⊢
    rcases hg : graph err with e | o | ⟨text, truthy⟩ <;> rw [hg] at h
    · dsimp only at h ⊢
      split_ifs at h ⊢
      · exact h
      · obtain ⟨messages, hm, h⟩ := Option.bind_eq_some_iff.1 h
        rw [mapM_mono (fun _ _ => extractErrorMessage_succ) hm]
        exact h
    · exact h
    · exact h

theorem extractErrorDetails_succ : ∀ {n : ℕ} {err : R} {details : ErrorDetails C},
    extractErrorDetails graph n err = some details →
      extractErrorDetails graph (n + 1) err = some details
  | n + 1, err, details, h => by
    rw [extractErrorDetails] at h ⊢
    obtain ⟨message, hm, h⟩ := Option.bind_eq_some_iff.1 h
    obtain ⟨c, hc, h⟩ := Option.bind_eq_some_iff.1 h
    have hc' : (cause graph err).mapM (extractErrorDetails graph (n + 1)) = some c := by
      rcases hcause : cause graph err with _ | c' <;> rw [hcause] at hc
      · exact hc
      · obtain ⟨details', hd, h'⟩ := Option.map_eq_some_iff.1 hc
        exact Option.map_eq_some_iff.2 ⟨details', extractErrorDetails_succ hd, h'⟩
    rw [extractErrorMessage_succ hm, hc']
    exact h

theorem message_returns_iff [Finite R] : (∃ n, (extractErrorMessage graph n err).isSome) ↔
    Acyclic (Aggregates graph) err ∧ ∀ y, ReflTransGen (Aggregates graph) err y →
      (graph y).Printable := by
  rw [Descent.returns_iff (P := fun n err => (extractErrorMessage graph n err).isSome)
    (Q := fun _ err => (graph err).Printable) (f := fun err => (graph err).errors)
    (fun _ => nofun) (fun _ _ => extractErrorMessage_isSome) (fun _ _ => id)]
  simp only [exists_const]
  rfl

/-- The errors that the cause of an error leads to do not lead back to themselves, nor do those that
one of them aggregates, and all of these have a text. -/
structure Extractable (graph : R → Value R C) (err : R) : Prop where
  causes : Acyclic (CausedBy graph) err
  aggregated : ∀ x, ReflTransGen (CausedBy graph) err x → Acyclic (Aggregates graph) x
  printable : ∀ x, ReflTransGen (CausedBy graph) err x →
    ∀ y, ReflTransGen (Aggregates graph) x y → (graph y).Printable

theorem details_returns_iff [Finite R] :
    (∃ n, (extractErrorDetails graph n err).isSome) ↔ Extractable graph err := by
  have hcaused : (fun x c => c ∈ (cause graph x).toList) = CausedBy graph := by
    funext x c
    simp [CausedBy]
  rw [Descent.returns_iff (P := fun n err => (extractErrorDetails graph n err).isSome)
    (Q := fun n err => (extractErrorMessage graph n err).isSome)
    (f := fun err => (cause graph err).toList) (fun _ => nofun)
    (fun _ _ => extractErrorDetails_isSome) fun n err h => by
      obtain ⟨message, hm⟩ := Option.isSome_iff_exists.1 h
      rw [extractErrorMessage_succ hm]
      rfl, hcaused]
  simp only [message_returns_iff]
  exact ⟨fun ⟨hcauses, hall⟩ => ⟨hcauses, fun x hx => (hall x hx).1, fun x hx => (hall x hx).2⟩,
    fun he => ⟨he.causes, fun x hx => ⟨he.aggregated x hx, he.printable x hx⟩⟩⟩

/-- The error branch goes on to reject the message if it can report what was thrown. -/
theorem issued_failed {d : RabbitMqConsumer.Delivery} {c : RabbitMqConsumer.Callback}
    {thrown : RabbitMqConsumer.Thrown} (hc : c.messageFinalized = false) :
    (d.failed c thrown).issued = c.issued ++ [.nack] ↔ d.reports thrown = true := by
  by_cases hr : d.reports thrown = true
  · rw [RabbitMqConsumer.Delivery.failed, if_pos hr, hc]
    exact iff_of_true rfl hr
  · rw [RabbitMqConsumer.Delivery.failed, if_neg hr]
    refine iff_of_false (fun he => ?_) hr
    have hlen := congrArg List.length (show c.issued = c.issued ++ [.nack] from he)
    simp at hlen

/-- `extractErrorDetails` returns, the same on every stack that is deep enough, if and only if the
error is extractable. If it is, or there is no logger, and only then, the consumer goes on to reject
a message whose handler has thrown the error. -/
theorem extracts_iff [Finite R] (graph : R → Value R C) (err : R) :
    ((∃ details depth, ∀ n, depth ≤ n → extractErrorDetails graph n err = some details)
      ↔ Extractable graph err)
    ∧ ∀ (d : RabbitMqConsumer.Delivery) (c : RabbitMqConsumer.Callback),
      c.messageFinalized = false →
      ((∃ depth, ∀ n, depth ≤ n →
          (d.failed c { details := (extractErrorDetails graph n err).isSome }).issued
            = c.issued ++ [.nack])
        ↔ (d.logger = true → Extractable graph err)) := by
  have hreturns : (∃ details depth, ∀ n, depth ≤ n →
      extractErrorDetails graph n err = some details) ↔ Extractable graph err := by
    rw [← details_returns_iff]
    constructor
    · rintro ⟨details, depth, hall⟩
      exact ⟨depth, by rw [hall depth le_rfl]; rfl⟩
    · rintro ⟨depth, hsome⟩
      obtain ⟨details, hd⟩ := Option.isSome_iff_exists.1 hsome
      exact ⟨details, depth, fun n hn => Nat.le_induction hd
        (fun _ _ => extractErrorDetails_succ) n hn⟩
  refine ⟨hreturns, fun d c hc => ?_⟩
  simp only [issued_failed hc, RabbitMqConsumer.Delivery.reports]
  rcases d.logger with _ | _
  · exact iff_of_true ⟨0, fun n _ => by simp⟩ nofun
  · rw [← hreturns]
    constructor
    · rintro ⟨depth, hall⟩ -
      refine hreturns.2 (details_returns_iff.1 ⟨depth, ?_⟩)
      simpa using hall depth le_rfl
    · intro h
      obtain ⟨details, depth, hall⟩ := h rfl
      exact ⟨depth, fun n hn => by simp [hall n hn]⟩

section Runs

/-- An error that aggregates one error twice, which is also its cause's cause. -/
def shared : Fin 3 → Value (Fin 3) ℕ
  | 0 => .error {
      name := "AggregateError", message := "top", cause := some 1, errors := some [2, 2] }
  | 1 => .error { message := "middle", cause := some 2 }
  | 2 => .error { message := "root" }

/-- A delivery to a consumer that has a logger. -/
def logged : RabbitMqConsumer.Delivery where
  queueGivenName := "users"
  subscriptions := []
  logger := true
  parse _ := some (.message .absent)
  content := []

theorem extracts_shared : Extractable shared 0 ∧ ∃ depth, ∀ n, depth ≤ n →
    (logged.failed { keepAliveTimeout := true }
      { details := (extractErrorDetails shared n 0).isSome }).issued = [.nack] := by
  have hd : extractErrorDetails shared 4 0 = some _ := rfl
  have hshared : Extractable shared 0 := (extracts_iff shared 0).1.1
    ⟨_, 4, fun n hn => Nat.le_induction hd (fun _ _ => extractErrorDetails_succ) n hn⟩
  exact ⟨hshared, ((extracts_iff shared 0).2 logged { keepAliveTimeout := true } rfl).2
    fun _ => hshared⟩

example : extractErrorMessage shared 2 0 = some "top; root; root" := by decide

/-- An error that is its own cause. -/
def ownCause (_ : Fin 1) : Value (Fin 1) ℕ := .error { message := "boom", cause := some 0 }

theorem not_extracts : ¬∀ (graph : Fin 1 → Value (Fin 1) ℕ) (err : Fin 1),
    ∃ n, (extractErrorDetails graph n err).isSome :=
  fun hall => (details_returns_iff.1 (hall ownCause 0)).causes 0 .refl (.single rfl)

end Runs

end ExtractErrorDetails

end NodeCqrs
