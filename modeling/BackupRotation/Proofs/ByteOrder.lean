import BackupRotation.Octets
import Mathlib.Data.String.Basic
import Mathlib.Tactic
/-! Names in the order of their bytes, which is that of their characters: of two characters the one with
the lower code has the lower byte in the first place where their encodings differ. -/
namespace BackupRotation.Octets
open String (utf8EncodeChar)

section Bytes

theorem bytesRead {bs : ByteArray} {rest : List UInt8} (front : List UInt8)
    (whole : bs.data.toList = front ++ rest) (read : List UInt8) :
    ByteArray.toList.loop bs front.length read = read.reverse ++ rest := by
  have size : bs.size = front.length + rest.length := by
    rw [← List.length_append, ← whole]
    rfl
  -- what was read before stands the other way round
  induction rest generalizing front read with
  | nil =>
    have ended : ¬front.length < bs.size := by simp [size]
    rw [ByteArray.toList.loop, if_neg ended, List.append_nil]
  | cons b rest ih =>
    have more : front.length < bs.size := by simp [size]
    have next : bs.get! front.length = b := by
      have place : bs.data.toList[front.length]? = some b := by simp [whole]
      rw [Array.getElem?_toList] at place
      rw [ByteArray.get!, getElem!_def, place]
    have behind : bs.data.toList = (front ++ [b]) ++ rest := by simp [whole]
    have later := ih (front ++ [b]) behind (b :: read) (by simp [size]; omega)
    rw [List.length_append, List.length_singleton] at later
    rw [ByteArray.toList.loop, if_pos more, next, later]
    simp

theorem textBytes (s : String) : (text s).toBytes = s.toList.flatMap utf8EncodeChar := by
  have whole : s.toUTF8.data.toList = s.toList.flatMap utf8EncodeChar := by
    rw [String.toUTF8_eq_toByteArray, ← String.utf8Encode_toList, List.utf8Encode,
      List.toList_data_toByteArray]
  exact bytesRead [] whole []

end Bytes

section Order
variable {c d : Char} {cs ds : List Char}

/-- Of two numbers in four digits to the base 64, the first digit that differs is lower in the lower one. -/
theorem digitBefore {n m : Nat} (below : n < m) : n / 262144 < m / 262144 ∨ n / 262144 = m / 262144 ∧
    (n / 4096 % 64 < m / 4096 % 64 ∨ n / 4096 % 64 = m / 4096 % 64 ∧
      (n / 64 % 64 < m / 64 % 64 ∨ n / 64 % 64 = m / 64 % 64 ∧ n % 64 < m % 64)) := by
  have places (k : Nat) : k = ((k / 262144 * 64 + k / 4096 % 64) * 64 + k / 64 % 64) * 64 + k % 64 := by
    omega
  have placesN := places n
  have placesM := places m
  omega

theorem charBefore (before : c < d) (us vs : List UInt8) :
    utf8EncodeChar c ++ us < utf8EncodeChar d ++ vs := by
  have below : c.val.toNat < d.val.toNat := UInt32.lt_iff_toNat_lt.mp before
  have top : d.val.toNat < 1114112 := by
    rcases d.valid with low | high
    · omega
    · exact high.2
  unfold utf8EncodeChar
  simp only
  generalize c.val.toNat = n at *
  generalize d.val.toNat = m at *
  have digits := digitBefore below
  have following (k : Nat) : (k % 64 + 128) % 2 ^ 8 = k % 64 + 128 := by omega
  have leadingN : (n / 262144 % 8 + 240) % 2 ^ 8 = n / 262144 + 240 := by omega
  have leadingM : (m / 262144 % 8 + 240) % 2 ^ 8 = m / 262144 + 240 := by omega
  -- the lengths apart, the bytes in front differ; with four bytes each they hold the digits
  split_ifs <;> simp only [List.cons_append, List.cons_lt_cons_iff, UInt8.lt_iff_toNat_lt,
    ← UInt8.toNat_inj, UInt8.toNat_ofNat', following, leadingN, leadingM] <;> omega

theorem charsBefore (before : cs < ds) : cs.flatMap utf8EncodeChar < ds.flatMap utf8EncodeChar := by
  induction before with
  | nil =>
    rename_i d ds
    rw [List.flatMap_nil, List.flatMap_cons]
    obtain ⟨byte, bytes, some⟩ := List.exists_cons_of_ne_nil (@String.utf8EncodeChar_ne_nil d)
    rw [some]
    exact List.nil_lt_cons _ _
  | rel before => exact charBefore before _ _
  | cons _ ih => exact List.append_left_lt ih

theorem bytesBefore {a b : String} : (text a).toBytes < (text b).toBytes ↔ a < b := by
  rw [textBytes, textBytes]
  refine ⟨fun before => ?_, charsBefore⟩
  rcases lt_trichotomy a b with less | rfl | more
  · exact less
  · exact absurd before (List.lt_irrefl _)
  · exact absurd (charsBefore more) (List.lt_asymm before)

end Order
end BackupRotation.Octets
