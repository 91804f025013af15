import NodeCqrs.EventDispatchPipeline
import NodeCqrs.Lib.Lines

/-!
# What becomes of the batches of a pipeline

A batch's record is what was pushed, what its calls to `process` and `revert` were handed and how
the former were answered. Its answers decide where it ends (`follow`), and the calls it makes on the
way (`calls`), whatever the other batches do meanwhile: a step changes the record of one batch, and
the batches leave the lines in the order they were pushed (`Inv.ids`).

This takes rejections that are truthy. An `error` that is not is no error to `if (envelope.error)`,
and the batch goes on.
-/

namespace NodeCqrs

namespace DispatchPipeline

variable {I V M ε : Type}

section Answers

/-- The batch and its error after these answers, each to the next processor. -/
def follow : Batch I V M → List (Answer I V M ε) → Batch I V M × Option ε
  | data, [] => (data, none)
  | _, .ok data :: answers => follow data answers
  | data, .error error :: _ => (data, some error)

/-- The calls these answers are to, from a processor on: none after one that rejects. -/
def calls : ℕ → Batch I V M → List (Answer I V M ε) → List (ℕ × Batch I V M)
  | _, _, [] => []
  | k, data, .ok data' :: answers => (k, data) :: calls (k + 1) data' answers
  | k, data, .error _ :: _ => [(k, data)]

theorem follow_append {data data' : Batch I V M} {answers : List (Answer I V M ε)}
    (answer : Answer I V M ε) (h : follow data answers = (data', none)) :
    follow data (answers ++ [answer]) = follow data' [answer] := by
  induction answers generalizing data with
  | nil =>
    obtain rfl : data = data' := by simpa [follow] using h
    rfl
  | cons first answers ih =>
    cases first with
    | ok data => exact ih h
    | error error => simp [follow] at h

theorem calls_append {k : ℕ} {data data' : Batch I V M} {answers : List (Answer I V M ε)}
    (answer : Answer I V M ε) (h : follow data answers = (data', none)) :
    calls k data (answers ++ [answer]) = calls k data answers ++ [(k + answers.length, data')] := by
  induction answers generalizing k data with
  | nil =>
    obtain rfl : data = data' := by simpa [follow] using h
    cases answer <;> rfl
  | cons first answers ih =>
    cases first with
    | ok data =>
      simp only [List.cons_append, calls, ih h, List.length_cons]
      rw [show k + 1 + answers.length = k + (answers.length + 1) by omega]
    | error error => simp [follow] at h

end Answers

/-- What is recorded of one batch. -/
@[ext]
structure Record (I V M ε : Type) where
  data : Batch I V M := []
  processed : List (ℕ × Batch I V M) := []
  answers : List (Answer I V M ε) := []
  reverted : List (ℕ × Batch I V M) := []

def State.record (s : State I V M ε) (id : ℕ) : Record I V M ε where
  data := s.pushed[id]?.getD []
  processed := Journal.on id s.processed
  answers := Journal.on id s.answered
  reverted := Journal.on id s.reverted

/-- The calls to `revert` when the batch is reverted: one to each processor that has it. -/
def revertCalls (processors : List Processor) (data : Batch I V M) : List (ℕ × Batch I V M) :=
  (processors.zipIdx.filter (·.1.revert)).map fun p => (p.2, data)

namespace Record

variable (r : Record I V M ε)

/-- The events of the batch its processors left, or the error of the one that failed. -/
def outcome [Truthy V] : Except ε (List (Event I V)) :=
  match follow r.data r.answers with
  | (data, none) => .ok ((publishes data).map Prod.fst)
  | (_, some error) => .error error

/-- What is published of the batch. -/
def publications [Truthy V] : List (Event I V × M) :=
  match follow r.data r.answers with
  | (data, none) => publishes data
  | (_, some _) => []

/-- What is reverted of the batch. -/
def reverts (processors : List Processor) : List (ℕ × Batch I V M) :=
  match follow r.data r.answers with
  | (_, none) => []
  | (data, some _) => revertCalls processors data

/-- The batch went through all of the processors, or till one that rejected and no further, and was
then reverted. -/
structure Finished (processors : List Processor) : Prop where
  answers_length : (follow r.data r.answers).2 = none → r.answers.length = processors.length
  calls_length : (calls 0 r.data r.answers).length = r.answers.length
  processed : r.processed = calls 0 r.data r.answers
  reverted : r.reverted = r.reverts processors

/-- The envelope holds what the batch has become after `k` processors, or in one that rejected. -/
structure Stands [Truthy ε] (k : ℕ) (envelope : EventBatchEnvelope I V M ε) : Prop where
  follow_eq : follow r.data r.answers = (envelope.data, envelope.error)
  answers_length : envelope.error = none → r.answers.length = k
  calls_length : (calls 0 r.data r.answers).length = r.answers.length
  truthy_error : ∀ error, envelope.error = some error → truthy error

end Record

/-- What the record of a batch is while its envelope is in the `k`-th line. -/
def Slot.Ok [Truthy ε] (r : Record I V M ε) (k : ℕ) : Slot I V M ε → Prop
  | .done envelope =>
    r.Stands k envelope ∧ r.processed = calls 0 r.data r.answers ∧ r.reverted = []
  | .running envelope =>
    r.Stands (k - 1) envelope ∧ envelope.error = none ∧ 0 < k
      ∧ r.processed = calls 0 r.data r.answers ++ [(k - 1, envelope.data)] ∧ r.reverted = []

theorem revertCalls_take_succ {processors : List Processor} {k : ℕ} {processor : Processor}
    (h : processors[k]? = some processor)
    (data : Batch I V M) :
    revertCalls (processors.take (k + 1)) data
      = revertCalls (processors.take k) data ++ if processor.revert then [(k, data)] else [] := by
  have hk : k < processors.length := (List.getElem?_eq_some_iff.1 h).1
  unfold revertCalls
  rw [List.take_add_one, h, List.zipIdx_append, List.filter_append, List.map_append]
  have hmin : 0 + (processors.take k).length = k := by
    rw [List.length_take, Nat.zero_add, Nat.min_eq_left (Nat.le_of_lt hk)]
  rw [hmin]
  cases hp : processor.revert <;> simp [hp]

theorem revertCalls_take_prefix (processors : List Processor) (k : ℕ) (data : Batch I V M) :
    revertCalls (processors.take k) data <+: revertCalls processors data := by
  conv => rhs; rw [← List.take_append_drop k processors]
  unfold revertCalls
  rw [List.zipIdx_append, List.filter_append, List.map_append]
  exact List.prefix_append _ _

section History

variable [Truthy V]

/-- Of the batches that are settled: each as its record says, in the order of the pushes. -/
structure History (processors : List Processor) (s : State I V M ε) : Prop where
  settled : s.settled
    = (List.range s.settled.length).map fun id => (id, (s.record id).outcome)
  published : s.published = (List.range s.settled.length).flatMap fun id =>
    (s.record id).publications.map fun p => (id, p)
  finished : ∀ id < s.settled.length, (s.record id).Finished processors

variable {processors : List Processor} {s s' : State I V M ε}

namespace History

theorem congr (h : History processors s) (hset : s'.settled = s.settled)
    (hpub : s'.published = s.published)
    (hrec : ∀ id < s.settled.length, s'.record id = s.record id) : History processors s' where
  settled := by
    rw [hset, h.settled]
    simp only [List.length_map, List.length_range]
    refine List.map_congr_left fun id hid => ?_
    rw [hrec id (List.mem_range.1 hid)]
  published := by
    rw [hset, hpub, h.published]
    refine List.flatMap_congr fun id hid => ?_
    rw [hrec id (List.mem_range.1 hid)]
  finished id hid := by
    rw [hset] at hid
    rw [hrec id hid]
    exact h.finished id hid

/-- The next batch settles. -/
theorem settle (h : History processors s)
    (hset : s'.settled = s.settled ++ [(s.settled.length, (s'.record s.settled.length).outcome)])
    (hpub : s'.published = s.published
      ++ (s'.record s.settled.length).publications.map fun p => (s.settled.length, p))
    (hrec : ∀ id < s.settled.length, s'.record id = s.record id)
    (hfin : (s'.record s.settled.length).Finished processors) : History processors s' where
  settled := by
    rw [hset, List.length_append, List.length_singleton, List.range_succ, List.map_append]
    congr 1
    rw [h.settled]
    simp only [List.length_map, List.length_range]
    refine List.map_congr_left fun id hid => ?_
    rw [hrec id (List.mem_range.1 hid)]
  published := by
    rw [hset, List.length_append, List.length_singleton, List.range_succ, List.flatMap_append, hpub,
      h.published]
    congr 1
    · refine List.flatMap_congr fun id hid => ?_
      rw [hrec id (List.mem_range.1 hid)]
    · simp
  finished id hid := by
    rw [hset, List.length_append, List.length_singleton] at hid
    rcases Nat.eq_or_lt_of_le (Nat.le_of_lt_succ hid) with rfl | hid
    · exact hfin
    · rw [hrec id hid]
      exact h.finished id hid

end History

end History

section Inv

variable [Truthy ε]

/-- Of the batches on their way: they follow the settled ones in the order of the pushes, each with
the envelope its record says. -/
structure Inv (processors : List Processor) (s : State I V M ε) : Prop where
  ids : List.range s.settled.length ++ (s.reverting.toList.map (fun p => p.1.id)
    ++ Lines.names Slot.id s.lines (processors.length + 1)) = List.range s.pushed.length
  slots : ∀ k < processors.length + 1, ∀ slot ∈ s.lines k, slot.Ok (s.record slot.id) k
  reverting : ∀ envelope k, s.reverting = some (envelope, k) →
    (s.record envelope.id).Stands processors.length envelope ∧ envelope.error ≠ none
      ∧ k < processors.length
      ∧ (s.record envelope.id).processed
        = calls 0 (s.record envelope.id).data (s.record envelope.id).answers
      ∧ (s.record envelope.id).reverted
        = revertCalls (processors.take (k + 1)) envelope.data
  fresh : ∀ id, s.pushed.length ≤ id → s.record id = {}

variable {processors : List Processor} {s s' : State I V M ε}

namespace Record

theorem Stands.failure {r : Record I V M ε} {k : ℕ} {envelope : EventBatchEnvelope I V M ε}
    (h : r.Stands k envelope) : envelope.failure = envelope.error := by
  unfold EventBatchEnvelope.failure
  rcases he : envelope.error with _ | error
  · rfl
  · simp [Option.filter_some, h.truthy_error error he]

theorem Stands.congr {r r' : Record I V M ε} {k : ℕ} {envelope : EventBatchEnvelope I V M ε}
    (h : r.Stands k envelope) (hd : r'.data = r.data) (ha : r'.answers = r.answers) :
    r'.Stands k envelope where
  follow_eq := by rw [hd, ha, h.follow_eq]
  answers_length := by rw [ha]; exact h.answers_length
  calls_length := by rw [hd, ha, h.calls_length]
  truthy_error := h.truthy_error

/-- A batch that has not failed becomes what the next processor answers. -/
theorem Stands.answered {r : Record I V M ε} {k : ℕ} {envelope : EventBatchEnvelope I V M ε}
    (h : r.Stands k envelope) (he : envelope.error = none) {answer : Answer I V M ε}
    (ht : ∀ error, answer = .error error → truthy error) :
    { r with answers := r.answers ++ [answer] }.Stands (k + 1) (envelope.answered answer)
      ∧ calls 0 r.data (r.answers ++ [answer]) = calls 0 r.data r.answers ++ [(k, envelope.data)] := by
  have hf : follow r.data r.answers = (envelope.data, none) := by rw [h.follow_eq, he]
  have hlen : r.answers.length = k := h.answers_length he
  have hcalls : calls 0 r.data (r.answers ++ [answer])
      = calls 0 r.data r.answers ++ [(k, envelope.data)] := by
    rw [calls_append answer hf, hlen, Nat.zero_add]
  refine ⟨⟨?_, fun _ => ?_, ?_, fun error hr => ?_⟩, hcalls⟩
  · rw [follow_append answer hf]
    cases answer <;> simp [follow, EventBatchEnvelope.answered, he]
  · simp [hlen]
  · simp [hcalls, h.calls_length]
  · cases answer with
    | ok data => simp [EventBatchEnvelope.answered, he] at hr
    | error error' =>
      obtain rfl : error' = error := by simpa [EventBatchEnvelope.answered] using hr
      exact ht error' rfl

end Record

namespace Inv

theorem nodup (h : Inv processors s) : (List.range s.settled.length ++ (s.reverting.toList.map
    (fun p => p.1.id) ++ Lines.names Slot.id s.lines (processors.length + 1))).Nodup :=
  h.ids ▸ List.nodup_range

theorem names_nodup (h : Inv processors s) :
    (Lines.names Slot.id s.lines (processors.length + 1)).Nodup :=
  h.nodup.of_append_right.of_append_right

theorem lt_pushed (h : Inv processors s) {id : ℕ}
    (hid : id ∈ s.reverting.toList.map (fun p => p.1.id)
      ++ Lines.names Slot.id s.lines (processors.length + 1)) : id < s.pushed.length := by
  have : id ∈ List.range s.pushed.length := h.ids ▸ List.mem_append_right _ hid
  exact List.mem_range.1 this

theorem settled_le (h : Inv processors s) {id : ℕ}
    (hid : id ∈ s.reverting.toList.map (fun p => p.1.id)
      ++ Lines.names Slot.id s.lines (processors.length + 1)) : s.settled.length ≤ id := by
  by_contra hlt
  have hr : id ∈ List.range s.settled.length := List.mem_range.2 (by omega)
  exact (List.nodup_append.1 h.nodup).2.2 id hr id hid rfl

theorem ne_reverting (h : Inv processors s) {envelope : EventBatchEnvelope I V M ε} {j k : ℕ}
    {slot : Slot I V M ε} (hr : s.reverting = some (envelope, j)) (hk : k < processors.length + 1)
    (hs : slot ∈ s.lines k) : slot.id ≠ envelope.id := by
  intro he
  refine (List.nodup_append.1 h.nodup.of_append_right).2.2 slot.id ?_ _ (Lines.mem_names hk hs) rfl
  simp [hr, he]

theorem ne_of_line (h : Inv processors s) {k k' : ℕ} {slot slot' : Slot I V M ε}
    (hk : k < processors.length + 1) (hk' : k' < processors.length + 1) (hs : slot ∈ s.lines k)
    (hs' : slot' ∈ s.lines k') (hne : k' ≠ k) : slot'.id ≠ slot.id := fun he =>
  hne (Lines.eq_of_name h.names_nodup hk' hk hs' hs he).1

end Inv

end Inv

variable [Truthy ε] [Truthy V] {processors : List Processor} {concurrentLimit : ℕ}
  {s s' : State I V M ε}

/-- No call to `process` rejects with a value that is falsy. -/
def RejectsTruthy (_ : State I V M ε) : Action I V M ε → Prop
  | .answer _ _ (.error error) => truthy error
  | _ => True

/-- What the actions of a pipe do to the lines: one envelope moves or changes, with its record. -/
theorem advance (hh : History processors s) (h : Inv processors s) {k : ℕ} {slot : Slot I V M ε}
    (hk : k < processors.length + 1) (hs : slot ∈ s.lines k) (hset : s'.settled = s.settled)
    (hpub : s'.published = s.published) (hrev : s'.reverting = s.reverting)
    (hpush : s'.pushed = s.pushed)
    (hnames : Lines.names Slot.id s'.lines (processors.length + 1)
      = Lines.names Slot.id s.lines (processors.length + 1))
    (hrec : ∀ id ≠ slot.id, s'.record id = s.record id)
    (hslots : ∀ k < processors.length + 1, ∀ slot' ∈ s'.lines k,
      (slot'.id ≠ slot.id ∧ slot' ∈ s.lines k) ∨ slot'.Ok (s'.record slot'.id) k) :
    History processors s' ∧ Inv processors s' := by
  have hmem : slot.id ∈ s.reverting.toList.map (fun p => p.1.id)
      ++ Lines.names Slot.id s.lines (processors.length + 1) :=
    List.mem_append_right _ (Lines.mem_names hk hs)
  have hlt := h.lt_pushed hmem
  have hle := h.settled_le hmem
  refine ⟨hh.congr hset hpub fun id hid => hrec id (by omega), ⟨?_, ?_, ?_, ?_⟩⟩
  · rw [hset, hrev, hpush, hnames]
    exact h.ids
  · intro k' hk' slot' hs'
    rcases hslots k' hk' slot' hs' with ⟨hne, hold⟩ | hok
    · rw [hrec _ hne]
      exact h.slots k' hk' slot' hold
    · exact hok
  · intro envelope j hr
    rw [hrev] at hr
    rw [hrec _ (h.ne_reverting hr hk hs).symm]
    exact h.reverting envelope j hr
  · intro id hid
    rw [hpush] at hid
    rw [hrec id (by omega)]
    exact h.fresh id hid

theorem step_push (hh : History processors s) (h : Inv processors s) {data : Batch I V M}
    (hst : step processors concurrentLimit s (.push data) = some s') :
    History processors s' ∧ Inv processors s' := by
  obtain rfl := Option.some.inj hst
  have hrec : ∀ id ≠ s.pushed.length, State.record { s with
      lines := Function.update s.lines 0 (s.lines 0 ++ [.done { id := s.pushed.length, data }])
      pushed := s.pushed ++ [data] } id = s.record id := by
    intro id hid
    rcases Nat.lt_or_gt_of_ne hid with hlt | hgt
    · simp [State.record, List.getElem?_append_left hlt]
    · have h1 : (s.pushed ++ [data])[id]? = none :=
        List.getElem?_eq_none (by rw [List.length_append]; exact hgt)
      have h2 : s.pushed[id]? = none := List.getElem?_eq_none (Nat.le_of_lt hgt)
      simp [State.record, h1, h2]
  have hnew : State.record { s with
      lines := Function.update s.lines 0 (s.lines 0 ++ [.done { id := s.pushed.length, data }])
      pushed := s.pushed ++ [data] } s.pushed.length = { data } := by
    have := h.fresh s.pushed.length (Nat.le_refl _)
    simp only [State.record, Record.mk.injEq] at this ⊢
    exact ⟨by simp, this.2⟩
  have hle : s.settled.length ≤ s.pushed.length := by
    have := congrArg List.length h.ids
    simp only [List.length_append, List.length_range] at this
    omega
  refine ⟨hh.congr rfl rfl fun id hid => hrec id (by omega), ⟨?_, ?_, ?_, ?_⟩⟩
  · simp only [List.length_append, List.length_singleton, List.range_succ, ← h.ids,
      Lines.names_join, List.append_assoc]
    rfl
  · intro k hk slot hs
    have hold : ∀ slot ∈ s.lines k, slot.id ≠ s.pushed.length := fun slot hs =>
      Nat.ne_of_lt (h.lt_pushed (List.mem_append_right _ (Lines.mem_names hk hs)))
    rcases eq_or_ne k 0 with rfl | hk0
    · simp only [Function.update_self, List.mem_append, List.mem_singleton] at hs
      rcases hs with hs | rfl
      · rw [hrec _ (hold slot hs)]
        exact h.slots 0 hk slot hs
      · refine ⟨?_, ?_⟩ <;> simp only [Slot.id, Slot.envelope, hnew]
        · exact ⟨rfl, fun _ => rfl, rfl, fun error hr => by cases hr⟩
        · exact ⟨rfl, trivial⟩
    · simp only [Function.update_of_ne hk0] at hs
      rw [hrec _ (hold slot hs)]
      exact h.slots k hk slot hs
  · intro envelope k hr
    have hlt : envelope.id < s.pushed.length :=
      h.lt_pushed (List.mem_append_left _ (by simp [show s.reverting = some (envelope, k) from hr]))
    rw [hrec _ (Nat.ne_of_lt hlt)]
    exact h.reverting envelope k hr
  · intro id hid
    simp only [List.length_append, List.length_singleton] at hid
    rw [hrec id (by omega)]
    exact h.fresh id (by omega)

theorem step_start (hh : History processors s) (h : Inv processors s) {k : ℕ}
    (hst : step processors concurrentLimit s (.start k) = some s') :
    History processors s' ∧ Inv processors s' := by
  unfold step at hst
  simp only [] at hst
  split at hst
  · rename_i envelope rest hline
    split at hst
    · rename_i hk
      obtain rfl := Option.some.inj hst
      have hmem : Slot.done envelope ∈ s.lines k := by simp [hline]
      have hk' : k < processors.length + 1 := by omega
      obtain ⟨hstands, hproc, hrev⟩ := h.slots k hk' _ hmem
      have hid : (startAction s k envelope).1.id = envelope.id := by
        unfold startAction
        split <;> rfl
      refine advance hh h hk' hmem rfl rfl rfl rfl
        (Lines.names_pass (by omega) hline hid) ?_ ?_
      · intro id hne
        have hne' : envelope.id ≠ id := fun he => hne he.symm
        unfold startAction
        split <;> simp [State.record, Journal.on_of_ne hne']
      · intro k' hlt slot' hs'
        simp only [] at hs'
        rcases eq_or_ne k' (k + 1) with rfl | hk1
        · rw [Function.update_self, List.mem_append, List.mem_singleton] at hs'
          rcases hs' with hs' | rfl
          · exact .inl ⟨h.ne_of_line hk' hlt hmem hs' (by omega), hs'⟩
          · right
            rw [hid]
            unfold startAction
            split
            · rename_i error hf
              refine ⟨⟨hstands.follow_eq, fun he => ?_, hstands.calls_length,
                hstands.truthy_error⟩, hproc, hrev⟩
              rw [hstands.failure, he] at hf
              cases hf
            · rename_i hf
              rw [hstands.failure] at hf
              refine ⟨hstands.congr rfl rfl, hf, Nat.succ_pos k, ?_, hrev⟩
              simpa [State.record, Slot.id, Slot.envelope] using hproc
        · rw [Function.update_of_ne hk1] at hs'
          rcases eq_or_ne k' k with rfl | hkk
          · rw [Function.update_self] at hs'
            have hnd := Lines.nodup_line h.names_nodup hk'
            rw [hline, List.map_cons, List.nodup_cons] at hnd
            refine .inl ⟨fun he => hnd.1 (he ▸ List.mem_map_of_mem hs'), ?_⟩
            rw [hline]
            exact List.mem_cons_of_mem _ hs'
          · rw [Function.update_of_ne hkk] at hs'
            exact .inl ⟨h.ne_of_line hk' hlt hmem hs' hkk, hs'⟩
    · cases hst
  · cases hst

omit [Truthy ε] [Truthy V] in
theorem Slot.answered_id (id : ℕ) (answer : Answer I V M ε) (slot : Slot I V M ε) :
    (slot.answered id answer).id = slot.id := by
  cases slot with
  | done envelope => rfl
  | running envelope =>
    by_cases h : envelope.id = id
    · simp only [Slot.answered, h, if_true]
      cases answer <;> rfl
    · simp only [Slot.answered, h, if_false]

omit [Truthy ε] [Truthy V] in
theorem Slot.answered_of_ne {id : ℕ} {slot : Slot I V M ε} (h : slot.id ≠ id)
    (answer : Answer I V M ε) : slot.answered id answer = slot := by
  cases slot with
  | done envelope => rfl
  | running envelope => exact if_neg h

theorem step_answer (hh : History processors s) (h : Inv processors s) {k id : ℕ}
    {answer : Answer I V M ε} (ht : ∀ error, answer = .error error → truthy error)
    (hst : step processors concurrentLimit s (.answer k id answer) = some s') :
    History processors s' ∧ Inv processors s' := by
  unfold step at hst
  simp only [] at hst
  split at hst
  · rename_i hc
    obtain rfl := Option.some.inj hst
    obtain ⟨hk, hany⟩ := hc
    obtain ⟨slot, hmem, hslot⟩ := List.any_eq_true.1 hany
    obtain ⟨hrun, rfl⟩ : slot.isRunning ∧ slot.id = id := by simpa using hslot
    cases slot with
    | done envelope => cases hrun
    | running envelope =>
      have hk1 : k + 1 < processors.length + 1 := by omega
      obtain ⟨hstands, hnone, -, hproc, hrev⟩ := h.slots (k + 1) hk1 _ hmem
      obtain ⟨hstands', hcalls⟩ := hstands.answered hnone ht
      refine advance hh h hk1 hmem rfl rfl rfl rfl 
        (Lines.names_map (Slot.answered_id _ answer)) ?_ ?_
      · intro id hne
        have hne' : (Slot.running envelope).id ≠ id := fun he => hne he.symm
        simp [State.record, Journal.on_of_ne hne']
      · intro k' hlt slot' hs'
        simp only [] at hs'
        rcases eq_or_ne k' (k + 1) with rfl | hkk
        · rw [Function.update_self, List.mem_map] at hs'
          obtain ⟨slot, hs, rfl⟩ := hs'
          rcases eq_or_ne slot.id (Slot.running envelope).id with he | he
          · right
            obtain ⟨-, rfl⟩ := Lines.eq_of_name h.names_nodup hlt hk1 hs hmem he
            rw [Slot.answered_id, show (Slot.running envelope).answered (Slot.running envelope).id answer
              = .done (envelope.answered answer) from if_pos rfl]
            refine ⟨hstands'.congr rfl (by simp [State.record]), ?_, hrev⟩
            simp only [State.record, Journal.on_append, Journal.on_self] at hproc hcalls ⊢
            rw [hproc, hcalls]
          · rw [Slot.answered_of_ne he]
            exact .inl ⟨he, hs⟩
        · rw [Function.update_of_ne hkk] at hs'
          exact .inl ⟨h.ne_of_line hk1 hlt hmem hs' hkk, hs'⟩
  · cases hst

/-- The loop of `#ensureProcessingStarted` holds an envelope it took from the last line. -/
structure Taken (processors : List Processor) (s : State I V M ε)
    (envelope : EventBatchEnvelope I V M ε) : Prop where
  history : History processors s
  ids : List.range s.settled.length
    ++ envelope.id :: Lines.names Slot.id s.lines (processors.length + 1)
      = List.range s.pushed.length
  slots : ∀ k < processors.length + 1, ∀ slot ∈ s.lines k, slot.Ok (s.record slot.id) k
  fresh : ∀ id, s.pushed.length ≤ id → s.record id = {}
  stands : (s.record envelope.id).Stands processors.length envelope
  processed : (s.record envelope.id).processed
    = calls 0 (s.record envelope.id).data (s.record envelope.id).answers

namespace Taken

variable {envelope : EventBatchEnvelope I V M ε}

/-- It is the oldest that is not settled. -/
theorem id_eq (h : Taken processors s envelope) : envelope.id = s.settled.length := by
  have hids : (List.range s.settled.length ++ envelope.id
      :: Lines.names Slot.id s.lines (processors.length + 1))[s.settled.length]?
        = (List.range s.pushed.length)[s.settled.length]? := by rw [h.ids]
  rw [List.getElem?_append_right (by simp), List.length_range, Nat.sub_self,
    List.getElem?_cons_zero] at hids
  obtain ⟨hlt, hid⟩ := List.getElem?_eq_some_iff.1 hids.symm
  simpa using hid.symm

theorem lt_pushed (h : Taken processors s envelope) : envelope.id < s.pushed.length := by
  have hmem : envelope.id ∈ List.range s.pushed.length := by
    rw [← h.ids]
    exact List.mem_append_right _ (List.mem_cons_self ..)
  exact List.mem_range.1 hmem

theorem ne_slot (h : Taken processors s envelope) {k : ℕ} {slot : Slot I V M ε}
    (hk : k < processors.length + 1) (hs : slot ∈ s.lines k) : slot.id ≠ envelope.id := by
  intro he
  have hnd : (List.range s.settled.length
      ++ envelope.id :: Lines.names Slot.id s.lines (processors.length + 1)).Nodup :=
    h.ids ▸ List.nodup_range
  have hcons := List.nodup_cons.1 hnd.of_append_right
  exact hcons.1 (he ▸ Lines.mem_names hk hs)

/-- The envelope's batch settles. -/
theorem settle (h : Taken processors s envelope) (hlines : s'.lines = s.lines)
    (hrev : s'.reverting = none) (hpush : s'.pushed = s.pushed)
    (hrec : ∀ id, s'.record id = s.record id)
    (hset : s'.settled = s.settled ++ [(envelope.id, (s.record envelope.id).outcome)])
    (hpub : s'.published = s.published
      ++ (s.record envelope.id).publications.map fun p => (envelope.id, p))
    (hreverted : (s.record envelope.id).reverted = (s.record envelope.id).reverts processors) :
    History processors s' ∧ Inv processors s' := by
  have hid := h.id_eq
  have hfin : (s.record envelope.id).Finished processors := by
    refine ⟨fun hn => ?_, h.stands.calls_length, h.processed, hreverted⟩
    exact h.stands.answers_length (by rw [← hn, h.stands.follow_eq])
  refine ⟨h.history.settle ?_ ?_ (fun id _ => hrec id) ?_, ⟨?_, ?_, ?_, ?_⟩⟩
  · rw [hset, hrec, hid]
  · rw [hpub, hrec, hid]
  · rw [hrec, ← hid]
    exact hfin
  · have hlen : s'.settled.length = s.settled.length + 1 := by simp [hset]
    rw [hlen, hrev, hpush, hlines, ← h.ids, hid, List.range_succ]
    simp
  · intro k hk slot hs
    rw [hrec]
    exact h.slots k hk slot (hlines ▸ hs)
  · intro envelope' k hr
    rw [hrev] at hr
    cases hr
  · intro id hle
    rw [hrec]
    exact h.fresh id (hpush ▸ hle)

theorem revertFrom (h : Taken processors s envelope) {error : ε}
    (he : envelope.error = some error) {k : ℕ} (hk : k ≤ processors.length)
    (hr : (s.record envelope.id).reverted = revertCalls (processors.take k) envelope.data) :
    History processors (revertFrom processors s envelope error k)
      ∧ Inv processors (DispatchPipeline.revertFrom processors s envelope error k) := by
  have hf := h.stands.follow_eq
  rw [he] at hf
  unfold DispatchPipeline.revertFrom
  rcases hp : processors[k]? with _ | processor
  · have hlen : k = processors.length := by
      have := List.getElem?_eq_none_iff.1 hp
      omega
    refine h.settle rfl rfl rfl (fun _ => rfl) ?_ ?_ ?_
    · simp [Record.outcome, hf]
    · simp [Record.publications, hf]
    · rw [hr, hlen, List.take_length]
      simp [Record.reverts, hf]
  · have hlt : k < processors.length := (List.getElem?_eq_some_iff.1 hp).1
    have hrec : ∀ id ≠ envelope.id, State.record { s with
        reverting := some (envelope, k)
        reverted := s.reverted
          ++ if processor.revert then [(envelope.id, k, envelope.data)] else [] } id
        = s.record id := by
      intro id hne
      cases hpr : processor.revert <;> simp [State.record, Journal.on_of_ne hne.symm]
    refine ⟨h.history.congr rfl rfl fun id hid => hrec id ?_, ⟨?_, ?_, ?_, ?_⟩⟩
    · rw [h.id_eq]
      omega
    · exact h.ids
    · intro k' hk' slot hs
      rw [hrec _ (h.ne_slot hk' hs)]
      exact h.slots k' hk' slot hs
    · rintro envelope' k' hr'
      obtain ⟨rfl, rfl⟩ : envelope = envelope' ∧ k = k' := by simpa using hr'
      refine ⟨h.stands.congr rfl rfl, by simp [he], hlt, h.processed, ?_⟩
      rw [revertCalls_take_succ hp, ← hr]
      cases hpr : processor.revert <;> simp [State.record, hpr]
    · intro id hle
      rw [hrec id (Nat.ne_of_gt (Nat.lt_of_lt_of_le h.lt_pushed hle))]
      exact h.fresh id hle

end Taken

theorem step_consume (hh : History processors s) (h : Inv processors s)
    (hst : step processors concurrentLimit s .consume = some s') :
    History processors s' ∧ Inv processors s' := by
  unfold step at hst
  simp only [] at hst
  split at hst
  · rename_i envelope rest hnone hline
    have hlt : processors.length < processors.length + 1 := Nat.lt_succ_self _
    have hmem : Slot.done envelope ∈ s.lines processors.length := by simp [hline]
    obtain ⟨hstands, hproc, hrev⟩ := h.slots _ hlt _ hmem
    have hids : List.range s.settled.length ++ envelope.id :: Lines.names Slot.id
        (Function.update s.lines processors.length rest) (processors.length + 1)
          = List.range s.pushed.length := by
      have := h.ids
      rw [hnone, Lines.names_leave hline] at this
      exact this
    have htaken : Taken processors
        { s with lines := Function.update s.lines processors.length rest } envelope := by
      refine ⟨hh.congr rfl rfl fun _ _ => rfl, hids, fun k hk slot hs => ?_, h.fresh,
        hstands.congr rfl rfl, hproc⟩
      refine h.slots k hk slot ?_
      rcases eq_or_ne k processors.length with rfl | hne
      · simp only [Function.update_self] at hs
        rw [hline]
        exact List.mem_cons_of_mem _ hs
      · simpa only [Function.update_of_ne hne] using hs
    split at hst
    · rename_i error hf
      obtain rfl := Option.some.inj hst
      rw [hstands.failure] at hf
      refine htaken.revertFrom hf (Nat.zero_le _) ?_
      rw [List.take_zero]
      exact hrev
    · rename_i hf
      obtain rfl := Option.some.inj hst
      rw [hstands.failure] at hf
      have hfollow := htaken.stands.follow_eq
      rw [hf] at hfollow
      refine htaken.settle rfl hnone rfl (fun _ => rfl) ?_ ?_ ?_
      · simp only [Record.outcome, hfollow]
      · simp only [Record.publications, hfollow]
      · simp only [Record.reverts, hfollow]
        exact hrev
  · cases hst

theorem step_revertReturned (hh : History processors s) (h : Inv processors s)
    (hst : step processors concurrentLimit s .revertReturned = some s') :
    History processors s' ∧ Inv processors s' := by
  unfold step at hst
  simp only [] at hst
  split at hst
  · rename_i envelope k hr
    obtain ⟨hstands, -, hk, hproc, hrev⟩ := h.reverting envelope k hr
    split at hst
    · rename_i error hf
      obtain rfl := Option.some.inj hst
      rw [hstands.failure] at hf
      have htaken : Taken processors s envelope := by
        refine ⟨hh, ?_, h.slots, h.fresh, hstands, hproc⟩
        have := h.ids
        rw [hr] at this
        exact this
      exact htaken.revertFrom hf hk hrev
    · cases hst
  · cases hst

theorem step_keeps (hh : History processors s) (h : Inv processors s) {a : Action I V M ε}
    (ha : RejectsTruthy s a) (hst : step processors concurrentLimit s a = some s') :
    History processors s' ∧ Inv processors s' := by
  cases a with
  | push data => exact step_push hh h hst
  | start k => exact step_start hh h hst
  | answer k id answer =>
    refine step_answer hh h (fun error he => ?_) hst
    subst he
    exact ha
  | consume => exact step_consume hh h hst
  | revertReturned => exact step_revertReturned hh h hst

theorem inv_of_reach (h : (machine processors concurrentLimit).ReachIf RejectsTruthy s) :
    History processors s ∧ Inv processors s := by
  refine h.invariant (fun s h0 => ?_) fun s a s' hs ha hst => step_keeps hs.1 hs.2 ha hst
  obtain rfl : s = {} := h0
  have hnames : ∀ n, Lines.names Slot.id (fun _ => ([] : List (Slot I V M ε))) n = [] := by
    intro n
    induction n with
    | zero => rfl
    | succ n ih => exact ih
  refine ⟨⟨rfl, rfl, fun id hid => absurd hid (Nat.not_lt_zero id)⟩,
    ⟨hnames _, ?_, ?_, fun _ _ => rfl⟩⟩
  · intro k _ slot hs
    cases hs
  · intro envelope k hr
    cases hr

/-- A batch that is not settled can go on, or waits for an answer of `process` or `revert`. -/
theorem goes_on (hl : processors ≠ [] → 0 < concurrentLimit) (h : Inv processors s)
    (hlt : s.settled.length < s.pushed.length) :
    ∃ a, (∀ data, a ≠ .push data) ∧ (step processors concurrentLimit s a).isSome := by
  rcases hr : s.reverting with _ | ⟨envelope, k⟩
  · have hne : Lines.names Slot.id s.lines (processors.length + 1) ≠ [] := by
      intro hempty
      have hids := congrArg List.length h.ids
      rw [hr, hempty] at hids
      simp at hids
      omega
    -- nothing is ahead of the head of the last line that is not empty
    obtain ⟨k, hk, hne, hlast⟩ := Lines.exists_last hne
    obtain ⟨slot, rest, hline⟩ := List.exists_cons_of_ne_nil hne
    cases slot with
    | running envelope =>
      obtain ⟨-, -, hpos, -, -⟩ := h.slots k hk (.running envelope) (by simp [hline])
      have hk1 : k - 1 < processors.length := by omega
      refine ⟨.answer (k - 1) envelope.id (.ok []), fun _ => by simp, ?_⟩
      simp [step, hk1, Nat.sub_add_cancel hpos, hline, Slot.isRunning, Slot.id, Slot.envelope]
    | done envelope =>
      rcases Nat.eq_or_lt_of_le (Nat.le_of_lt_succ hk) with rfl | hkn
      · rcases hf : envelope.failure with _ | error
        · exact ⟨.consume, fun _ => by simp, by simp [step, hr, hline, hf]⟩
        · exact ⟨.consume, fun _ => by simp, by simp [step, hr, hline, hf]⟩
      · have hcount : (s.lines (k + 1)).countP Slot.isRunning < concurrentLimit := by
          rw [hlast (k + 1) (Nat.lt_succ_self k) (by omega)]
          exact hl (List.ne_nil_of_length_pos (by omega))
        exact ⟨.start k, fun _ => by simp, by simp [step, hline, hkn, hcount]⟩
  · obtain ⟨hstands, hne, -, -, -⟩ := h.reverting envelope k hr
    obtain ⟨error, he⟩ := Option.ne_none_iff_exists'.1 hne
    exact ⟨.revertReturned, fun _ => by simp, by simp [step, hr, hstands.failure, he]⟩

/-- What a slot in the `k`-th line still has to go through. -/
def Slot.work (n k : ℕ) : Slot I V M ε → ℕ
  | .done _ => n + 2 + 2 * (n - k)
  | .running _ => n + 3 + 2 * (n - k)

/-- A bound on the steps to come if nothing more is pushed. -/
def State.work (n : ℕ) (s : State I V M ε) : ℕ :=
  s.reverting.elim 0 (fun p => n - p.2 + 1)
    + Lines.weigh (Slot.work n) s.lines (n + 1)

variable (processors) in
omit [Truthy ε] [Truthy V] in
theorem revertFrom_work (s : State I V M ε) (envelope : EventBatchEnvelope I V M ε) (error : ε)
    (k : ℕ) : (revertFrom processors s envelope error k).work processors.length
      ≤ (if k < processors.length then processors.length - k + 1 else 0)
        + Lines.weigh (Slot.work processors.length) s.lines (processors.length + 1) := by
  unfold revertFrom
  split
  · rename_i processor hp
    rw [if_pos (List.getElem?_eq_some_iff.1 hp).1]
    exact Nat.le_refl _
  · simp [State.work]

theorem step_work {a : Action I V M ε} (ha : ∀ data, a ≠ .push data)
    (hst : step processors concurrentLimit s a = some s') :
    s'.work processors.length < s.work processors.length := by
  cases a with
  | push data => exact absurd rfl (ha data)
  | start k =>
    unfold step at hst
    simp only [] at hst
    split at hst
    · rename_i envelope rest hline
      split at hst
      · rename_i hk
        obtain rfl := Option.some.inj hst
        refine Nat.add_lt_add_left (Lines.weigh_pass (by omega) hline ?_) _
        unfold startAction
        split <;> simp only [Slot.work] <;> omega
      · cases hst
    · cases hst
  | answer k id answer =>
    unfold step at hst
    simp only [] at hst
    split at hst
    · rename_i hc
      obtain rfl := Option.some.inj hst
      obtain ⟨hk, hany⟩ := hc
      obtain ⟨slot, hmem, hslot⟩ := List.any_eq_true.1 hany
      refine Nat.add_lt_add_left (Lines.weigh_map (by omega) (fun slot _ => ?_)
        ⟨slot, hmem, ?_⟩) _
      · cases slot with
        | done envelope => exact Nat.le_refl _
        | running envelope =>
          by_cases he : envelope.id = id <;> simp [Slot.answered, he, Slot.work]
      · obtain ⟨hrun, rfl⟩ : slot.isRunning ∧ slot.id = id := by simpa using hslot
        cases slot with
        | done envelope => cases hrun
        | running envelope => simp [Slot.answered, Slot.id, Slot.envelope, Slot.work]
    · cases hst
  | consume =>
    unfold step at hst
    simp only [] at hst
    split at hst
    · rename_i envelope rest hnone hline
      have hleave : Lines.weigh (Slot.work processors.length) s.lines (processors.length + 1) = _ :=
        Lines.weigh_leave hline
      have hw : Slot.work processors.length processors.length (Slot.done envelope)
        = processors.length + 2 := by simp [Slot.work]
      have hold : s.work processors.length
          = Lines.weigh (Slot.work processors.length) s.lines (processors.length + 1) := by
        simp [State.work, hnone]
      split at hst
      · rename_i error hf
        obtain rfl := Option.some.inj hst
        have := revertFrom_work processors { s with
          lines := Function.update s.lines processors.length rest } envelope error 0
        split at this <;> simp only [] at this <;> omega
      · obtain rfl := Option.some.inj hst
        simp only [State.work, hnone, Option.elim_none] at hold ⊢
        omega
    · cases hst
  | revertReturned =>
    unfold step at hst
    simp only [] at hst
    split at hst
    · rename_i envelope k hr
      split at hst
      · rename_i error hf
        obtain rfl := Option.some.inj hst
        have hle := revertFrom_work processors s envelope error (k + 1)
        have hold : s.work processors.length = processors.length - k + 1
            + Lines.weigh (Slot.work processors.length) s.lines (processors.length + 1) := by
          simp [State.work, hr]
        split at hle <;> omega
      · cases hst
    · cases hst

theorem run_work : ∀ {l : List (Action I V M ε)} {s s' : State I V M ε},
    (∀ a ∈ l, ∀ data, a ≠ .push data) →
    (machine processors concurrentLimit).run s l = some s' →
      s'.work processors.length + l.length ≤ s.work processors.length
  | [], s, s', _, hr => by
    obtain rfl := Option.some.inj hr
    exact Nat.le_refl _
  | a :: l, s, s', hl, hr => by
    obtain ⟨t, hst, ht⟩ := Option.bind_eq_some_iff.1 hr
    have hstep := step_work (hl a (List.mem_cons_self ..)) hst
    have hrest := run_work (fun a' ha' => hl a' (List.mem_cons_of_mem _ ha')) ht
    rw [List.length_cons]
    omega

/-- What the batches of a pipeline come to. The settled ones are the first ones pushed; each has
settled once, with the outcome its own answers decide, and only what these outcomes are to publish
is published, in the order of the pushes (`History`). A batch that has not failed is not reverted,
and one that has is on its way to no other processor. With nothing more pushed there is an end to
the steps, and at the end every batch has settled. -/
structure Protocol (processors : List Processor) (concurrentLimit : ℕ) (s : State I V M ε) :
    Prop where
  history : History processors s
  settled_le : s.settled.length ≤ s.pushed.length
  failed : ∀ id, (follow (s.record id).data (s.record id).answers).2 ≠ none →
    (s.record id).processed = calls 0 (s.record id).data (s.record id).answers
  reverted : ∀ id, (s.record id).reverted <+: (s.record id).reverts processors
  length_le : ∀ l s', (∀ a ∈ l, ∀ data, a ≠ .push data) →
    (machine processors concurrentLimit).run s l = some s' → l.length ≤ s.work processors.length
  settled_of_stuck : (∀ a, (∀ data, a ≠ .push data) →
    (machine processors concurrentLimit).step s a = none) → s.settled.length = s.pushed.length

/-- What holds of a batch wherever it is. -/
theorem anywhere (hh : History processors s) (h : Inv processors s) (id : ℕ) :
    ((follow (s.record id).data (s.record id).answers).2 ≠ none →
      (s.record id).processed = calls 0 (s.record id).data (s.record id).answers)
    ∧ (s.record id).reverted <+: (s.record id).reverts processors := by
  by_cases hfresh : s.pushed.length ≤ id
  · rw [h.fresh id hfresh]
    exact ⟨fun hf => absurd rfl hf, List.nil_prefix⟩
  have hmem : id ∈ List.range s.pushed.length := List.mem_range.2 (by omega)
  rw [← h.ids, List.mem_append, List.mem_append] at hmem
  rcases hmem with hsettled | hrev | hline
  · have hfin := hh.finished id (List.mem_range.1 hsettled)
    exact ⟨fun _ => hfin.processed, hfin.reverted ▸ List.prefix_refl _⟩
  · rcases hr : s.reverting with _ | ⟨envelope, k⟩
    · rw [hr] at hrev
      cases hrev
    · obtain rfl : envelope.id = id := by
        rw [hr] at hrev
        exact (List.mem_singleton.1 hrev).symm
      obtain ⟨hstands, hne, -, hproc, hreverted⟩ := h.reverting envelope k hr
      obtain ⟨error, he⟩ := Option.ne_none_iff_exists'.1 hne
      refine ⟨fun _ => hproc, ?_⟩
      rw [hreverted, Record.reverts, hstands.follow_eq, he]
      exact revertCalls_take_prefix _ _ _
  · obtain ⟨k, hk, hslot⟩ := Lines.mem_gather.1 hline
    obtain ⟨slot, hs, rfl⟩ := List.mem_map.1 hslot
    have hok := h.slots k hk slot hs
    cases slot with
    | done envelope =>
      obtain ⟨-, hproc, hreverted⟩ := hok
      exact ⟨fun _ => hproc, hreverted ▸ List.nil_prefix⟩
    | running envelope =>
      obtain ⟨hstands, hnone, -, -, hreverted⟩ := hok
      refine ⟨fun hf => absurd ?_ hf, hreverted ▸ List.nil_prefix⟩
      rw [hstands.follow_eq, hnone]

/-- With pipes, if there are any, that may run an action, and no call to `process` rejecting with a
falsy value, every run of a pipeline keeps to the protocol. -/
theorem batches_settle (hl : processors ≠ [] → 0 < concurrentLimit)
    (h : (machine processors concurrentLimit).ReachIf RejectsTruthy s) :
    Protocol processors concurrentLimit s := by
  obtain ⟨hh, hi⟩ := inv_of_reach h
  have hle : s.settled.length ≤ s.pushed.length := by
    have hlen := congrArg List.length hi.ids
    simp only [List.length_append, List.length_range] at hlen
    omega
  refine ⟨hh, hle, fun id => (anywhere hh hi id).1, fun id => (anywhere hh hi id).2,
    fun l s' hp hr => ?_, fun hstuck => ?_⟩
  · have hwork := run_work hp hr
    omega
  · by_contra hne
    obtain ⟨a, ha, hsome⟩ := goes_on hl hi (by omega)
    have hnone := hstuck a ha
    rw [show step processors concurrentLimit s a = none from hnone] at hsome
    cases hsome

/-- Of two batches the first is refused, after the second one was answered. -/
theorem batches_settle_refused : ∃ s : State ℕ ℕ Unit String,
    (machine [⟨true⟩] 2).ReachIf RejectsTruthy s ∧ Protocol [⟨true⟩] 2 s
      ∧ s.reverted = [(0, 0, [⟨some { type := "created", payload := 1 }, ()⟩])]
      ∧ s.published = [(1, { type := "renamed", payload := 2 }, ())]
      ∧ s.settled = [(0, .error "refused"), (1, .ok [{ type := "renamed", payload := 2 }])] := by
  let batch : Batch ℕ ℕ Unit := [⟨some { type := "created", payload := 1 }, ()⟩]
  let batch' : Batch ℕ ℕ Unit := [⟨some { type := "renamed", payload := 2 }, ()⟩]
  have h0 : (machine (I := ℕ) (V := ℕ) (M := Unit) (ε := String) [⟨true⟩] 2).Init {} := rfl
  have hreach := (Machine.ReachIf.init (C := RejectsTruthy) h0).run (l := [.push batch, .push batch',
    .start 0, .start 0, .answer 0 1 (.ok batch'), .answer 0 0 (.error "refused"), .consume,
    .revertReturned, .consume]) (Machine.Along.of_forall (by simp [RejectsTruthy, truthy])) rfl
  exact ⟨_, hreach, batches_settle (fun _ => by decide) hreach, rfl, rfl, rfl⟩

/-- `Promise.reject('')` from the first of two processors: the second one has the batch next, its
event is published, and the dispatch resolves. -/
theorem batches_settle_fails : ∃ s : State ℕ ℕ Unit String,
    (machine [⟨true⟩, ⟨false⟩] 1).Reach s
      ∧ (0, .error "") ∈ s.answered
      ∧ (0, 1, [⟨some { type := "created", payload := 1 }, ()⟩]) ∈ s.processed
      ∧ s.reverted = []
      ∧ s.published = [(0, { type := "created", payload := 1 }, ())]
      ∧ s.settled = [(0, .ok [{ type := "created", payload := 1 }])] := by
  let batch : Batch ℕ ℕ Unit := [⟨some { type := "created", payload := 1 }, ()⟩]
  have h0 : (machine (I := ℕ) (V := ℕ) (M := Unit) (ε := String) [⟨true⟩, ⟨false⟩] 1).Init {} := rfl
  refine ⟨_, Machine.reach_of_run (l := [.push batch, .start 0, .answer 0 0 (.error ""), .start 1,
    .answer 1 0 (.ok batch), .consume]) h0 rfl, ?_, ?_, rfl, rfl, rfl⟩
  · exact List.mem_cons_self ..
  · exact List.mem_cons_of_mem _ (List.mem_cons_self ..)

end DispatchPipeline

end NodeCqrs
