import NodeCqrs.EventStorages
import NodeCqrs.Proofs.SqliteGuid

/-!
# The texts of ObjectIds

Two texts of 24 hex digits are one ObjectId if their digits are the same (`hexObjectId_eq_iff`), so
in lower case only if they are the same text.
-/

namespace NodeCqrs

variable {str str' : String}

theorem isHexObjectId_iff :
    isHexObjectId str = true ↔ str.length = 24 ∧ ∀ c ∈ str.toList, (hexValue c).isSome := by
  simp [isHexObjectId]

/-- The digits of an ObjectId's text, the last one first, as numbers. -/
theorem hexDigits_lt (str : String) :
    ∀ n ∈ str.toList.reverse.map fun c => (hexValue c).getD 0, n < 16 := by
  intro n hn
  obtain ⟨c, -, rfl⟩ := List.mem_map.1 hn
  rcases hc : hexValue c with _ | m
  · decide
  · exact hexValue_lt hc

theorem hexNumber_lt_of_isHexObjectId (h : isHexObjectId str = true) :
    hexNumber str.toList < 2 ^ 96 := by
  have hlt := Nat.ofDigits_lt_base_pow_length (by decide : 1 < 16) (hexDigits_lt str)
  rw [List.length_map, List.length_reverse, String.length_toList, (isHexObjectId_iff.1 h).1] at hlt
  exact hlt

/-- Two texts are one ObjectId if their digits are the same. -/
theorem hexObjectId_eq_iff (h : isHexObjectId str = true) (h' : isHexObjectId str' = true) :
    hexObjectId str = hexObjectId str' ↔ str.toList.map hexValue = str'.toList.map hexValue := by
  obtain ⟨hlen, hc⟩ := isHexObjectId_iff.1 h
  obtain ⟨hlen', hc'⟩ := isHexObjectId_iff.1 h'
  constructor
  · intro he
    have hnum : hexNumber str.toList = hexNumber str'.toList := by
      have hval : hexNumber str.toList % 2 ^ 96 = hexNumber str'.toList % 2 ^ 96 :=
        congrArg Fin.val he
      rwa [Nat.mod_eq_of_lt (hexNumber_lt_of_isHexObjectId h),
        Nat.mod_eq_of_lt (hexNumber_lt_of_isHexObjectId h')] at hval
    have hdigits := Nat.ofDigits_inj_of_len_eq (by decide : 1 < 16)
      (by rw [List.length_map, List.length_map, List.length_reverse, List.length_reverse,
        String.length_toList, String.length_toList, hlen, hlen'])
      (hexDigits_lt str) (hexDigits_lt str') hnum
    rw [List.map_reverse, List.map_reverse, List.reverse_inj] at hdigits
    -- each digit is its number
    have hsome : ∀ {l : List Char}, (∀ c ∈ l, (hexValue c).isSome) →
        l.map hexValue = (l.map fun c => (hexValue c).getD 0).map some := by
      intro l hl
      rw [List.map_map]
      refine List.map_congr_left fun c hmem => ?_
      obtain ⟨n, hn⟩ := Option.isSome_iff_exists.1 (hl c hmem)
      simp [hn]
    rw [hsome hc, hsome hc', hdigits]
  · intro heq
    have hmap : ∀ l : List Char, (l.reverse.map fun c => (hexValue c).getD 0)
        = ((l.map hexValue).map (·.getD 0)).reverse := by simp
    rw [hexObjectId, hexObjectId, hexNumber, hexNumber, hmap, hmap, heq]

namespace IsHexId

theorem canonicalId (h : IsHexId str) : CanonicalId str := ⟨⟨12, h.1⟩, h.2⟩

theorem ne_empty (h : IsHexId str) : str ≠ "" := by
  rintro rfl
  exact absurd h.1 (by decide)

theorem isHexObjectId (h : IsHexId str) : isHexObjectId str = true := by
  refine isHexObjectId_iff.2 ⟨h.1, fun c hc => ?_⟩
  obtain ⟨n, -, hn, -⟩ := hexValue_of_mem c (h.2 c hc)
  simp [hn]

theorem hexObjectId_inj (h : IsHexId str) (h' : IsHexId str')
    (he : hexObjectId str = hexObjectId str') : str = str' := by
  have hdigits := (hexObjectId_eq_iff h.isHexObjectId h'.isHexObjectId).1 he
  -- a digit in lower case is spelled by its value
  have hspelled : ∀ {l : List Char}, (∀ c ∈ l, c ∈ "0123456789abcdef".toList) →
      (l.map hexValue).map (fun v => Nat.digitChar (v.getD 0)) = l := by
    intro l hl
    rw [List.map_map]
    refine (List.map_congr_left fun c hc => ?_).trans (List.map_id _)
    obtain ⟨n, -, hn, hd⟩ := hexValue_of_mem c (hl c hc)
    simp [hn, hd]
  rw [← String.toList_inj, ← hspelled h.2, hdigits, hspelled h'.2]

theorem toObjectId (h : IsHexId str) : toObjectId str = some (hexObjectId str) := by
  simp [NodeCqrs.toObjectId, h.isHexObjectId]

theorem toObjectIdOrString_inj (h : IsHexId str) (h' : IsHexId str') :
    toObjectIdOrString str = toObjectIdOrString str' ↔ str = str' := by
  simp only [toObjectIdOrString, h.toObjectId, h'.toObjectId, Option.elim_some,
    StoredId.objectId.injEq]
  exact ⟨h.hexObjectId_inj h', congrArg _⟩

end IsHexId

end NodeCqrs
