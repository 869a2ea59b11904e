import Mathlib.Data.List.Basic

/-!
# UTF-8

The bytes of a string, and two ways back: the strict one fails on bytes that are no string, the
lossy one puts the replacement character where no character begins.
-/

namespace Utf8

def asBytes (s : String) : List UInt8 :=
  s.toUTF8.data.toList

def fromUtf8 (bytes : List UInt8) : Option String :=
  String.fromUTF8? ⟨bytes.toArray⟩

/-- How many bytes follow the first byte of a character, and the bounds of the second byte. -/
def following (first : UInt8) : Option (ℕ × UInt8 × UInt8) :=
  if 0xC2 ≤ first ∧ first ≤ 0xDF then some (1, 0x80, 0xBF)
  else if first = 0xE0 then some (2, 0xA0, 0xBF)
  else if first = 0xED then some (2, 0x80, 0x9F)
  else if 0xE1 ≤ first ∧ first ≤ 0xEF then some (2, 0x80, 0xBF)
  else if first = 0xF0 then some (3, 0x90, 0xBF)
  else if 0xF1 ≤ first ∧ first ≤ 0xF3 then some (3, 0x80, 0xBF)
  else if first = 0xF4 then some (3, 0x80, 0x8F)
  else none

/-- How many bytes after `first` belong to the character that it begins. -/
def begun (first : UInt8) (rest : List UInt8) : ℕ :=
  match following first, rest with
  | some (n, lo, hi), second :: rest =>
    if lo ≤ second ∧ second ≤ hi then
      1 + ((rest.take (n - 1)).takeWhile fun b => 0x80 ≤ b ∧ b ≤ 0xBF).length
    else 0
  | _, _ => 0

/-- The characters that the bytes encode, one replacement for each one that is cut short. -/
def lossyChars : ℕ → List UInt8 → List Char
  | 0, _ | _, [] => []
  | fuel + 1, first :: rest =>
    match ByteArray.utf8DecodeChar? ⟨(first :: rest).toArray⟩ 0 with
    | some c => c :: lossyChars fuel (rest.drop (c.utf8Size - 1))
    | none => Char.ofNat 0xFFFD :: lossyChars fuel (rest.drop (begun first rest))

def fromUtf8Lossy (bytes : List UInt8) : String :=
  (fromUtf8 bytes).getD (String.ofList (lossyChars bytes.length bytes))

lemma fromUtf8_asBytes (s : String) : fromUtf8 (asBytes s) = some s := by
  rw [fromUtf8, asBytes, Array.toArray_toList, String.fromUTF8?]
  exact dif_pos s.isValidUTF8

/-- The strict way keeps the bytes. -/
lemma asBytes_of_fromUtf8 {bytes : List UInt8} {s : String} (h : fromUtf8 bytes = some s) :
    asBytes s = bytes := by
  rw [fromUtf8, String.fromUTF8?] at h
  split_ifs at h with hvalid
  cases h
  rfl

lemma fromUtf8Lossy_asBytes (s : String) : fromUtf8Lossy (asBytes s) = s := by
  rw [fromUtf8Lossy, fromUtf8_asBytes, Option.getD_some]

end Utf8
