import Mathlib.Data.Nat.Notation

/-!
# `guid` and `bufferToGuid`

Identifiers as the bytes their hex digits spell. A `Buffer` is made of the digit pairs up to the
first that is none.
-/

namespace NodeCqrs

/-- The value of a hex digit. -/
def hexValue : Char → Option ℕ
  | '0' => some 0 | '1' => some 1 | '2' => some 2 | '3' => some 3 | '4' => some 4
  | '5' => some 5 | '6' => some 6 | '7' => some 7 | '8' => some 8 | '9' => some 9
  | 'a' | 'A' => some 10 | 'b' | 'B' => some 11 | 'c' | 'C' => some 12
  | 'd' | 'D' => some 13 | 'e' | 'E' => some 14 | 'f' | 'F' => some 15
  | _ => none

/-- The UTF-16 code units of a character. -/
def codeUnits (c : Char) : List ℕ :=
  if c.toNat < 0x10000 then [c.toNat]
  else [0xD800 + (c.toNat - 0x10000) / 0x400, 0xDC00 + (c.toNat - 0x10000) % 0x400]

/-- The hex digit of a code unit, of which only the low byte is looked at. -/
def unhex (unit : ℕ) : Option ℕ := hexValue (Char.ofNat (unit % 256))

/-- `Buffer.from(str, 'hex')`, of the code units of `str` -/
def bufferFrom : List ℕ → List ℕ
  | a :: b :: str =>
    match unhex a, unhex b with
    | some x, some y => (16 * x + y) :: bufferFrom str
    | _, _ => []
  | _ => []

def guid (str : String) : List ℕ := bufferFrom ((str.toList.filter (· ≠ '-')).flatMap codeUnits)

/-- `buf.toString('hex')` -/
def bufferToGuid (buf : List ℕ) : String :=
  String.ofList (buf.flatMap fun byte => [Nat.digitChar (byte / 16), Nat.digitChar (byte % 16)])

/-- 32 lower-case hex digits. -/
def IsGuid (str : String) : Prop :=
  str.length = 32 ∧ ∀ c ∈ str.toList, c ∈ "0123456789abcdef".toList

/-- Lower-case hex digits, two for a byte. -/
def CanonicalId (str : String) : Prop :=
  2 ∣ str.length ∧ ∀ c ∈ str.toList, c ∈ "0123456789abcdef".toList

end NodeCqrs
