import Mathlib.Data.List.Basic
import Mathlib.Tactic.Common
import NodeCqrs.Sqlite.Guid

/-!
# Identifiers read back

An identifier in lower-case hex digits, an even number of them, is what its bytes spell
(`CanonicalId.bufferToGuid_guid`), so no two have the same bytes.
-/

namespace NodeCqrs

/-- A hex digit in lower case is its value's. -/
theorem hexValue_of_mem : ∀ c ∈ "0123456789abcdef".toList,
    ∃ n < 16, hexValue c = some n ∧ Nat.digitChar n = c := by
  have hall : ("0123456789abcdef".toList.all fun c => (List.range 16).any fun n =>
      hexValue c = some n && Nat.digitChar n = c) = true := by decide
  intro c hc
  simpa using List.all_eq_true.1 hall c hc

theorem separator_of_mem : ∀ c ∈ "0123456789abcdef".toList, c ≠ '-' ∧ c ≠ ':' := by
  have hall : ("0123456789abcdef".toList.all fun c => c ≠ '-' && c ≠ ':') = true := by decide
  intro c hc
  simpa using List.all_eq_true.1 hall c hc

/-- A hex digit is one code unit, which is read as the digit. -/
theorem unhex_of_mem : ∀ c ∈ "0123456789abcdef".toList,
    codeUnits c = [c.toNat] ∧ unhex c.toNat = hexValue c := by
  have hall : ("0123456789abcdef".toList.all fun c =>
      codeUnits c = [c.toNat] && unhex c.toNat = hexValue c) = true := by decide
  intro c hc
  simpa using List.all_eq_true.1 hall c hc

theorem flatMap_codeUnits {str : List Char} (h : ∀ c ∈ str, c ∈ "0123456789abcdef".toList) :
    str.flatMap codeUnits = str.map (·.toNat) := by
  rw [List.map_eq_flatMap]
  exact List.flatMap_congr fun c hc => (unhex_of_mem c (h c hc)).1

theorem bufferToGuid_bufferFrom : ∀ (n : ℕ) (str : List Char), str.length = 2 * n →
    (∀ c ∈ str, c ∈ "0123456789abcdef".toList) →
    (bufferFrom (str.map (·.toNat))).flatMap
      (fun byte => [Nat.digitChar (byte / 16), Nat.digitChar (byte % 16)]) = str
  | 0, str, hlen, _ => by
    obtain rfl : str = [] := List.eq_nil_of_length_eq_zero hlen
    rfl
  | n + 1, a :: b :: str, hlen, hc => by
    have ha := hc a (by simp)
    have hb := hc b (by simp)
    obtain ⟨x, hx, hax, hxa⟩ := hexValue_of_mem a ha
    obtain ⟨y, hy, hby, hyb⟩ := hexValue_of_mem b hb
    have ih := bufferToGuid_bufferFrom n str (by simp at hlen; omega)
      fun c hcs => hc c (by simp [hcs])
    simp only [List.map_cons, bufferFrom, (unhex_of_mem a ha).2, (unhex_of_mem b hb).2, hax, hby,
      List.flatMap_cons, ih]
    rw [show (16 * x + y) / 16 = x by omega, show (16 * x + y) % 16 = y by omega, hxa, hyb]
    rfl

/-- An id is read back as it was. -/
theorem CanonicalId.bufferToGuid_guid {str : String} (h : CanonicalId str) :
    bufferToGuid (guid str) = str := by
  have hdash : str.toList.filter (· ≠ '-') = str.toList := by
    rw [List.filter_eq_self]
    intro c hc
    simpa using (separator_of_mem c (h.2 c hc)).1
  obtain ⟨n, hn⟩ := h.1
  unfold bufferToGuid guid
  rw [hdash, flatMap_codeUnits h.2, bufferToGuid_bufferFrom n _ hn h.2, String.ofList_toList]

theorem hexValue_lt {c : Char} {n : ℕ} (h : hexValue c = some n) : n < 16 := by
  unfold hexValue at h
  split at h <;> simp at h <;> omega

theorem bufferFrom_lt : ∀ {str : List ℕ}, ∀ byte ∈ bufferFrom str, byte < 256
  | [], _, hb => by cases hb
  | [_], _, hb => by cases hb
  | a :: b :: str, byte, hb => by
    rw [bufferFrom] at hb
    split at hb
    · rename_i x y hx hy
      rcases List.mem_cons.1 hb with rfl | hb
      · have hx16 := hexValue_lt hx
        have hy16 := hexValue_lt hy
        omega
      · exact bufferFrom_lt byte hb
    · cases hb

theorem hexValue_digitChar : ∀ n < 16, hexValue (Nat.digitChar n) = some n
    ∧ Nat.digitChar n ∈ "0123456789abcdef".toList := by
  decide

/-- The hex digits of some bytes. -/
def digitsOf (buf : List ℕ) : List Char :=
  buf.flatMap fun byte => [Nat.digitChar (byte / 16), Nat.digitChar (byte % 16)]

theorem mem_digitsOf {buf : List ℕ} (h : ∀ byte ∈ buf, byte < 256) :
    ∀ c ∈ digitsOf buf, c ∈ "0123456789abcdef".toList := by
  intro c hc
  obtain ⟨byte, hb, hc⟩ := List.mem_flatMap.1 hc
  have hbyte := h byte hb
  rcases List.mem_pair.1 hc with rfl | rfl
  · exact (hexValue_digitChar _ (by omega)).2
  · exact (hexValue_digitChar _ (by omega)).2

/-- What is written in the digits of some bytes is read as these bytes. -/
theorem bufferFrom_digitsOf : ∀ {buf : List ℕ}, (∀ byte ∈ buf, byte < 256) →
    bufferFrom ((digitsOf buf).map (·.toNat)) = buf
  | [], _ => rfl
  | byte :: buf, h => by
    have hb := h byte (List.mem_cons_self ..)
    have ih := bufferFrom_digitsOf fun b hm => h b (List.mem_cons_of_mem _ hm)
    obtain ⟨hhigh, hmem⟩ := hexValue_digitChar (byte / 16) (by omega)
    obtain ⟨hlow, hmem'⟩ := hexValue_digitChar (byte % 16) (by omega)
    change bufferFrom (_ :: _ :: (digitsOf buf).map _) = byte :: buf
    simp only [bufferFrom, (unhex_of_mem _ hmem).2, (unhex_of_mem _ hmem').2, hhigh, hlow, ih]
    rw [Nat.div_add_mod]

/-- An id that was read is stored as it was. -/
theorem guid_bufferToGuid (id : String) : guid (bufferToGuid (guid id)) = guid id := by
  have hlt : ∀ byte ∈ guid id, byte < 256 := fun byte hb => bufferFrom_lt byte hb
  have hdash : (digitsOf (guid id)).filter (· ≠ '-') = digitsOf (guid id) :=
    List.filter_eq_self.2 fun c hc =>
      decide_eq_true (separator_of_mem c (mem_digitsOf hlt c hc)).1
  change guid (String.ofList (digitsOf (guid id))) = guid id
  rw [guid, String.toList_ofList, hdash, flatMap_codeUnits (mem_digitsOf hlt),
    bufferFrom_digitsOf hlt]

theorem CanonicalId.guid_inj {str str' : String} (h : CanonicalId str) (h' : CanonicalId str')
    (he : guid str = guid str') : str = str' := by
  rw [← h.bufferToGuid_guid, he, h'.bufferToGuid_guid]

theorem CanonicalId.of_all {str : String} (h : (decide (2 ∣ str.length)
    && str.toList.all fun c => "0123456789abcdef".toList.contains c) = true) :
    CanonicalId str := by
  simpa [CanonicalId] using h

theorem isGuid_of_all {str : String} (h : (str.length = 32
    && str.toList.all fun c => "0123456789abcdef".toList.contains c) = true) : IsGuid str := by
  simpa [IsGuid] using h

theorem IsGuid.canonicalId {str : String} (h : IsGuid str) : CanonicalId str :=
  ⟨⟨16, h.1⟩, h.2⟩

theorem IsGuid.bufferToGuid_guid {str : String} (h : IsGuid str) : bufferToGuid (guid str) = str :=
  h.canonicalId.bufferToGuid_guid

theorem IsGuid.ne_empty {str : String} (h : IsGuid str) : str ≠ "" := by
  rintro rfl
  exact absurd h.1 (by decide)

end NodeCqrs
