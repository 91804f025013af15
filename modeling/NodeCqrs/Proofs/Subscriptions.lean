import NodeCqrs.InMemory.Subscriptions
import NodeCqrs.Lib.Entries

/-!
# A bus as a set of pairs

The map has a type whose handlers were all removed, and the set has none: `off` goes on to succeed,
and a named queue takes no handler of the type any more. So the bus behaves as the set as long as no
call removes the last handler of a type (`behaves_iff`), and `off` after `on` restores its behaviour
if the type was in the map (`restores_iff`).
-/

namespace NodeCqrs

variable {t : String} {h : ℕ} {u : Bool}

namespace HandlerSet

variable {pairs : HandlerSet}

theorem mem_handlersOf : h ∈ pairs.handlersOf t ↔ (t, h) ∈ pairs := by
  simp [handlersOf]

theorem handlersOf_append (pairs : HandlerSet) (t : String) (h : ℕ) (k : String) :
    handlersOf (pairs ++ [(t, h)]) k
      = if k = t then pairs.handlersOf k ++ [h] else pairs.handlersOf k := by
  unfold handlersOf
  rw [List.filter_append, List.map_append]
  split_ifs with hk
  · simp [hk]
  · simp [Ne.symm hk]

theorem handlersOf_erase (t : String) (h : ℕ) (k : String) : ∀ pairs : HandlerSet,
    handlersOf (pairs.erase (t, h)) k
      = if k = t then (pairs.handlersOf k).erase h else pairs.handlersOf k
  | [] => by simp [handlersOf]
  | (t', h') :: pairs => by
    have ih := handlersOf_erase t h k pairs
    unfold handlersOf at ih ⊢
    by_cases hp : (t', h') = (t, h)
    · obtain ⟨rfl, rfl⟩ := Prod.mk.inj hp
      rw [List.erase_cons_head]
      split_ifs with hk
      · simp [hk]
      · rw [List.filter_cons_of_neg (by simpa using Ne.symm hk)]
    · rw [List.erase_cons_tail (by simpa using hp)]
      by_cases hk : t' = k
      · subst hk
        rw [List.filter_cons_of_pos (by simp), List.filter_cons_of_pos (by simp), List.map_cons,
          List.map_cons, ih]
        split_ifs with ht
        · subst ht
          rw [List.erase_cons_tail (by simpa using hp)]
        · rfl
      · rw [List.filter_cons_of_neg (by simpa using hk),
          List.filter_cons_of_neg (by simpa using hk), ih]

end HandlerSet

namespace MessageHandlers

variable {handlers handlers' : MessageHandlers}

theorem isSome_on : (handlers.on u t h).isSome
    ↔ t ≠ "" ∧ (u → handlers.lookup t = none) := by
  have hmem := Entries.mem_keys (l := handlers) (k := t)
  unfold on
  cases hl : handlers.lookup t <;> rw [hl] at hmem <;> split_ifs <;> simp_all

theorem isSome_off : (handlers.off t h).isSome ↔ t ≠ "" ∧ handlers.lookup t ≠ none := by
  have hmem := Entries.mem_keys (l := handlers) (k := t)
  unfold off
  cases hl : handlers.lookup t <;> rw [hl] at hmem <;> split_ifs <;> simp_all

theorem lookup_on (hon : handlers.on u t h = some handlers') (k : String) :
    handlers'.lookup k = if k = t then
        some (if h ∈ (handlers.lookup t).getD [] then (handlers.lookup t).getD []
          else (handlers.lookup t).getD [] ++ [h])
      else handlers.lookup k := by
  have hmem := Entries.mem_keys (l := handlers) (k := t)
  unfold on at hon
  split_ifs at hon with ht hin hu <;> obtain rfl := Option.some.inj hon
  · have hf : (handlers.map fun entry =>
          if entry.1 = t ∧ h ∉ entry.2 then (entry.1, entry.2 ++ [h]) else entry)
        = handlers.map fun entry =>
          if entry.1 = t then (entry.1, if h ∈ entry.2 then entry.2 else entry.2 ++ [h])
          else entry := by
      refine List.map_congr_left fun entry _ => ?_
      by_cases hh : h ∈ entry.2
      · simp [hh]
      · simp [hh]
    rw [hf, Entries.lookup_map fun hs => if h ∈ hs then hs else hs ++ [h]]
    obtain ⟨hs, hl⟩ := hmem.1 hin
    split_ifs with hk <;> simp_all
  · have hl := Entries.lookup_eq_none hin
    rw [Entries.lookup_concat hl, hl, Option.getD_none, if_neg List.not_mem_nil, List.nil_append]

theorem lookup_off (hoff : handlers.off t h = some handlers') (k : String) :
    handlers'.lookup k = if k = t then (handlers.lookup t).map (·.erase h)
      else handlers.lookup k := by
  unfold off at hoff
  split_ifs at hoff
  obtain rfl := Option.some.inj hoff
  rw [Entries.lookup_map (fun hs : List ℕ => hs.erase h)]
  split_ifs with hk
  · rw [hk]
  · rfl

end MessageHandlers

namespace Subscribed

variable {handlers handlers' : MessageHandlers} {pairs : HandlerSet} {s s' : Subscribed}

/-- The map has the handlers of each type that has one, and no other type. -/
structure Represents (handlers : MessageHandlers) (pairs : HandlerSet) : Prop where
  lookup : ∀ t, handlers.lookup t
    = if pairs.handlersOf t = [] then none else some (pairs.handlersOf t)
  named : pairs.handlersOf "" = []

namespace Represents

theorem getD (hr : Represents handlers pairs) (t : String) :
    (handlers.lookup t).getD [] = pairs.handlersOf t := by
  rw [hr.lookup t]
  split_ifs with hnil
  · exact hnil.symm
  · rfl

theorem eq_none_iff (hr : Represents handlers pairs) :
    handlers.lookup t = none ↔ pairs.handlersOf t = [] := by
  rw [hr.lookup t]
  split_ifs with hnil <;> simp [hnil]

theorem behaves (hr : Represents handlers pairs) :
    Behaves u handlers pairs where
  on t h := by
    rw [Bool.eq_iff_iff, MessageHandlers.isSome_on, hr.eq_none_iff, HandlerSet.on]
    split_ifs with ht
    · rcases ht with rfl | ht
      · simp
      · simp [ht]
    all_goals simpa [not_or] using ht
  off t h := by
    rw [Bool.eq_iff_iff, MessageHandlers.isSome_off, Ne, Ne, hr.eq_none_iff, HandlerSet.off]
    split_ifs with ht
    · rcases ht with rfl | ht
      · simp
      · simp [ht]
    · simpa [not_or] using ht
  send I V command := by rw [MessageHandlers.send, HandlerSet.send, hr.getD]
  publish := hr.getD

/-- Both accept a call to `on`, or neither does. -/
theorem on (hr : Represents handlers pairs) (u : Bool) (t : String) (h : ℕ) :
    Represents ((handlers.on u t h).getD handlers)
      ((pairs.on u t h).getD pairs) := by
  have hsome := hr.behaves (u := u).on t h
  rcases hon : handlers.on u t h with _ | m
  · rw [hon, Option.isSome_none, eq_comm, Option.isSome_eq_false_iff, Option.isNone_iff_eq_none]
      at hsome
    rw [hsome]
    exact hr
  · rw [hon, Option.isSome_some, eq_comm, Option.isSome_iff_exists] at hsome
    obtain ⟨pairs', hpairs⟩ := hsome
    rw [hpairs, Option.getD_some, Option.getD_some]
    unfold HandlerSet.on at hpairs
    split_ifs at hpairs with ht hmem <;> obtain rfl := Option.some.inj hpairs
    · refine ⟨fun k => ?_, hr.named⟩
      have hin := HandlerSet.mem_handlersOf.2 hmem
      rw [MessageHandlers.lookup_on hon, hr.getD, if_pos hin, ← hr.lookup k]
      split_ifs with hk
      · rw [hk, hr.lookup t, if_neg (List.ne_nil_of_mem hin)]
      · rfl
    · refine ⟨fun k => ?_, ?_⟩
      · have hout := mt HandlerSet.mem_handlersOf.1 hmem
        rw [MessageHandlers.lookup_on hon, hr.getD, if_neg hout, HandlerSet.handlersOf_append]
        split_ifs with hk hnil
        · simp at hnil
        · rw [hk]
        · rw [hr.lookup k, if_pos (by assumption)]
        · rw [hr.lookup k, if_neg (by assumption)]
      · rw [HandlerSet.handlersOf_append, if_neg (fun hk => ht (.inl hk.symm))]
        exact hr.named

theorem off (hr : Represents handlers pairs) (hne : pairs.handlersOf t ≠ [h]) :
    Represents ((handlers.off t h).getD handlers) ((pairs.off t h).getD pairs) := by
  have hsome := hr.behaves (u := false).off t h
  rcases hoff : handlers.off t h with _ | m
  · rw [hoff, Option.isSome_none, eq_comm, Option.isSome_eq_false_iff, Option.isNone_iff_eq_none]
      at hsome
    rw [hsome]
    exact hr
  · rw [hoff, Option.isSome_some, eq_comm, Option.isSome_iff_exists] at hsome
    obtain ⟨pairs', hpairs⟩ := hsome
    rw [hpairs, Option.getD_some, Option.getD_some]
    unfold HandlerSet.off at hpairs
    split_ifs at hpairs with ht
    obtain rfl := Option.some.inj hpairs
    rw [not_or] at ht
    refine ⟨fun k => ?_, ?_⟩
    · rw [MessageHandlers.lookup_off hoff, HandlerSet.handlersOf_erase, hr.lookup t, if_neg ht.2]
      split_ifs with hk hnil
      · rw [hk] at hnil
        exact absurd (List.erase_eq_nil_iff.1 hnil) (not_or.2 ⟨ht.2, hne⟩)
      · rw [hk, Option.map_some]
      · rw [hr.lookup k, if_pos (by assumption)]
      · rw [hr.lookup k, if_neg (by assumption)]
    · rw [HandlerSet.handlersOf_erase, if_neg (fun hk => ht.1 hk.symm)]
      exact hr.named

/-- A type whose last handler is removed stays in the map. -/
theorem not_behaves_off (hr : Represents handlers pairs) (hlast : pairs.handlersOf t = [h]) :
    ¬ Behaves u ((handlers.off t h).getD handlers)
      ((pairs.off t h).getD pairs) := by
  intro hb
  have ht : t ≠ "" := by
    rintro rfl
    rw [hr.named] at hlast
    cases hlast
  have hl : handlers.lookup t = some [h] := by rw [hr.lookup t, hlast, if_neg (by simp)]
  obtain ⟨m, hm⟩ := Option.isSome_iff_exists.1 (MessageHandlers.isSome_off (h := h).2
    ⟨ht, by rw [hl]; simp⟩)
  have hpairs : pairs.off t h = some (pairs.erase (t, h)) := by
    rw [HandlerSet.off, if_neg (by simp [ht, hlast])]
  have hnil : HandlerSet.handlersOf (pairs.erase (t, h)) t = [] := by
    rw [HandlerSet.handlersOf_erase, if_pos rfl, hlast, List.erase_cons_head]
  have hml : m.lookup t ≠ none := by
    rw [MessageHandlers.lookup_off hm, if_pos rfl, hl]
    simp
  have hoff := hb.off t h
  rw [hm, hpairs, Option.getD_some, Option.getD_some, Bool.eq_iff_iff,
    MessageHandlers.isSome_off, HandlerSet.off, if_pos (.inr hnil)] at hoff
  exact absurd (hoff.1 ⟨ht, hml⟩) (by simp)

end Represents

/-- The call does not remove the last handler of its type. -/
def KeepsOne (s : Subscribed) : Call → Prop
  | .on _ _ => True
  | .off t h => s.pairs.handlersOf t ≠ [h]

theorem represents_step {call : Call} (hr : Represents s.handlers s.pairs) (hC : KeepsOne s call) :
    Represents (step u s call).handlers
      (step u s call).pairs := by
  cases call with
  | on t h => exact hr.on u t h
  | off t h => exact hr.off hC

/-- `off` after `on` of a handler that was not subscribed restores the behaviour if and only if its
type was in the map. -/
theorem restores_iff {handlers'' : MessageHandlers} (hnew : h ∉ (handlers.lookup t).getD [])
    (hon : handlers.on u t h = some handlers') (hoff : handlers'.off t h = some handlers'') :
    Alike u handlers'' handlers ↔ ∃ hs, handlers.lookup t = some hs := by
  have hlookup : ∀ k, handlers''.lookup k
      = if k = t then some ((handlers.lookup t).getD []) else handlers.lookup k := fun k => by
    have ht := MessageHandlers.lookup_on hon t
    rw [if_pos rfl, if_neg hnew] at ht
    rw [MessageHandlers.lookup_off hoff, ht, Option.map_some,
      List.erase_append_right _ hnew, List.erase_cons_head, List.append_nil]
    split_ifs with hk
    · rfl
    · rw [MessageHandlers.lookup_on hon, if_neg hk]
  constructor
  · intro ha
    have htype : t ≠ "" := (MessageHandlers.isSome_on.1 (Option.isSome_of_mem hon)).1
    have hsome : (handlers''.off t h).isSome := MessageHandlers.isSome_off.2
      ⟨htype, by rw [hlookup, if_pos rfl]; simp⟩
    rw [ha.off t h] at hsome
    exact Option.ne_none_iff_exists'.1 (MessageHandlers.isSome_off.1 hsome).2
  · rintro ⟨hs, hl⟩
    have hsame : ∀ k, handlers''.lookup k = handlers.lookup k := fun k => by
      rw [hlookup]
      split_ifs with hk
      · rw [hk, hl, Option.getD_some]
      · rfl
    refine ⟨fun k g => ?_, fun k g => ?_, fun I V command => ?_, fun k => by rw [hsame]⟩
    · rw [Bool.eq_iff_iff, MessageHandlers.isSome_on, MessageHandlers.isSome_on, hsame]
    · rw [Bool.eq_iff_iff, MessageHandlers.isSome_off, MessageHandlers.isSome_off, hsame]
    · rw [MessageHandlers.send, MessageHandlers.send, hsame]

/-- All along a history the bus behaves as the set of the pairs that were added and not removed
since, if and only if no call removes the last handler of a type. And `off` after `on` of a handler
that was not subscribed restores the behaviour if and only if its type was in the map. -/
theorem behaves_iff {l : List Call} (h : (machine u).run {} l = some s) :
    ((∀ l' t, l' <+: l → (machine u).run {} l' = some t → Behaves u t.handlers t.pairs)
      ↔ (machine u).Along KeepsOne {} l)
    ∧ ∀ t h handlers' handlers'', h ∉ (s.handlers.lookup t).getD [] →
      s.handlers.on u t h = some handlers' → handlers'.off t h = some handlers'' →
        (Alike u handlers'' s.handlers ↔ ∃ hs, s.handlers.lookup t = some hs) := by
  refine ⟨?_, fun t h handlers' handlers'' hnew hon hoff => restores_iff hnew hon hoff⟩
  refine Machine.along_iff (I := fun s => Represents s.handlers s.pairs) (fun s hr => hr.behaves)
    (fun s call s' hr hC hs => ?_) (fun s call s' hr hs hb => ?_) ⟨fun _ => rfl, rfl⟩ h
  · obtain rfl := Option.some.inj hs
    exact represents_step hr hC
  · obtain rfl := Option.some.inj hs
    cases call with
    | on t h => trivial
    | off t h => exact fun hlast => hr.not_behaves_off hlast hb

theorem behaves_iff_two_handlers :
    (∀ l' t, l' <+: [Call.on "signup" 0, .on "signup" 1, .off "signup" 0] →
        (machine false).run {} l' = some t → Behaves false t.handlers t.pairs)
      ∧ Alike false [("signup", [1])] [("signup", [1])] := by
  have hrun : (machine false).run {} [.on "signup" 0, .on "signup" 1, .off "signup" 0]
    = some { handlers := [("signup", [1])], pairs := [("signup", 1)] } := rfl
  have hboth := behaves_iff hrun
  refine ⟨hboth.1.2 ⟨trivial, fun _ h => ?_⟩, ?_⟩
  · obtain rfl := Option.some.inj h
    refine ⟨trivial, fun _ h => ?_⟩
    obtain rfl := Option.some.inj h
    refine ⟨?_, fun _ _ => trivial⟩
    show HandlerSet.handlersOf [("signup", 0), ("signup", 1)] "signup" ≠ [0]
    decide
  · exact (hboth.2 "signup" 2 [("signup", [1, 2])] [("signup", [1])] (by decide) rfl rfl).2
      ⟨[1], rfl⟩

/-- A queue whose only handler of a type was removed takes no other, and `off` of a handler it no
longer has goes on to succeed. -/
theorem not_behaves_empty_set :
    ¬ ∀ l s, (machine true).run {} l = some s →
      Behaves true s.handlers s.pairs := by
  intro hall
  have hon := (hall [.on "signup" 0, .off "signup" 0]
    { handlers := [("signup", [])], pairs := [] } rfl).on "signup" 0
  exact absurd hon (by decide)

end Subscribed

end NodeCqrs
