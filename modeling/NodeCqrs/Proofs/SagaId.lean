import Mathlib.Data.List.Basic
import Mathlib.Tactic.Common
import NodeCqrs.Utils.SagaId

/-!
# What `parseSagaId` makes of `makeSagaId`

A descriptor and an event id without a colon are read back (`parseSagaId_makeSagaId`). Even with
one, the descriptor and the saga id determine the event id (`makeSagaId_inj`).
-/

namespace NodeCqrs

theorem makeSagaId_ok {sagaDescriptor originEventId sagaId : String}
    (h : makeSagaId sagaDescriptor originEventId = .ok sagaId) :
    sagaDescriptor ≠ "" ∧ originEventId ≠ "" ∧ sagaDescriptor ++ ":" ++ originEventId = sagaId := by
  by_cases hd : sagaDescriptor = ""
  · simp [makeSagaId, assertString, hd, bind, Except.bind] at h
  by_cases ho : originEventId = ""
  · simp [makeSagaId, assertString, hd, ho, bind, Except.bind] at h
  exact ⟨hd, ho, by simpa [makeSagaId, assertString, hd, ho, bind, Except.bind, pure,
    Except.pure] using h⟩

theorem makeSagaId_inj {sagaDescriptor originEventId originEventId' sagaId : String}
    (h : makeSagaId sagaDescriptor originEventId = .ok sagaId)
    (h' : makeSagaId sagaDescriptor originEventId' = .ok sagaId) :
    originEventId = originEventId' := by
  obtain ⟨-, -, hid⟩ := makeSagaId_ok h
  obtain ⟨-, -, hid'⟩ := makeSagaId_ok h'
  exact (String.append_right_inj _).1 (hid.trans hid'.symm)

/-- What `makeSagaId` puts together, if the event id has no colon. -/
theorem parseSagaId_makeSagaId {sagaDescriptor originEventId sagaId : String}
    (h : makeSagaId sagaDescriptor originEventId = .ok sagaId) (hc : ':' ∉ originEventId.toList) :
    parseSagaId sagaId = .ok (sagaDescriptor, originEventId) := by
  obtain ⟨hd, ho, rfl⟩ := makeSagaId_ok h
  have hcs : ∀ c ∈ originEventId.toList.reverse, (!decide (c = ':')) = true := by
    intro c hcs
    have hcc : c ≠ ':' := by
      rintro rfl
      exact hc (List.mem_reverse.1 hcs)
    simpa using hcc
  have htake : (originEventId.toList.reverse ++ ':' :: sagaDescriptor.toList.reverse).takeWhile
      (fun c => !decide (c = ':')) = originEventId.toList.reverse := by
    rw [List.takeWhile_append_of_pos hcs]
    simp
  have hdrop : (originEventId.toList.reverse ++ ':' :: sagaDescriptor.toList.reverse).dropWhile
      (fun c => !decide (c = ':')) = ':' :: sagaDescriptor.toList.reverse := by
    rw [List.dropWhile_append_of_pos hcs]
    simp
  have hne : sagaDescriptor ++ ":" ++ originEventId ≠ "" := by simp
  simp [parseSagaId, assertString, hne, htake, hdrop, hd, ho, bind, Except.bind]

end NodeCqrs
