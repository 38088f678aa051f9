import Sizigy.Hash
import Sizigy.Library.Crc

/-! The CRC of `hashmap.c`. Its table holds what eight shifts of the register do to each byte, so
the loop over the bytes is the register that takes in their bits one by one, with polynomial
0xEDB88320, from zero and without a final inversion. -/
namespace Sizigy.Checksum

open Crc

def polynomial : BitVec 32 := 0xEDB88320

/-- The register after the bits of all bytes, lowest first. -/
def bitwise (s : List UInt8) : BitVec 32 := register polynomial 0 (s.flatMap fun byte => bits 8 byte.toNat)

/-- The body of the loop in `crc32`. -/
def turn (crc32val : UInt64) (byte : UInt8) : UInt64 :=
  crc32Tab.getD ((crc32val ^^^ byte.toUInt64) &&& 0xff).toNat 0 ^^^ (crc32val >>> 8)

/-- The values of `crc32val`, one before the loop and one after each turn. -/
def accumulators (s : List UInt8) (len : UInt32) : List UInt64 := (s.take len.toNat).scanl turn 0

/-- The literal table is the one that eight shifts of each byte give. -/
theorem crc32Tab_eq :
    crc32Tab = (List.range 256).map fun word =>
      UInt64.ofNat ((shift polynomial)^[8] (BitVec.ofNat 32 word)).toNat := by
  decide +kernel

theorem crc32Tab_entry (inside : word < 2 ^ 8) :
    (crc32Tab.getD word 0).toNat = ((shift polynomial)^[8] (BitVec.ofNat 32 word)).toNat := by
  have small := ((shift polynomial)^[8] (BitVec.ofNat 32 word)).isLt
  have entry : crc32Tab.getD word 0 = UInt64.ofNat ((shift polynomial)^[8] (BitVec.ofNat 32 word)).toNat := by
    rw [crc32Tab_eq,List.getD_eq_getElem?_getD,List.getElem?_map,List.getElem?_range (show word < 256 from inside)]
    rfl
  rw [entry,UInt64.toNat_ofNat']
  exact Nat.mod_eq_of_lt (by omega)

theorem turn_index (same : crc32val.toNat = r.toNat) (byte : UInt8) :
    ((crc32val ^^^ byte.toUInt64) &&& 0xff).toNat = (r ^^^ BitVec.ofNat 32 byte.toNat).toNat % 2 ^ 8 := by
  have small : byte.toNat < 2 ^ 32 := Nat.lt_of_lt_of_le byte.toNat_lt (by decide)
  have mask : (0xff : UInt64).toNat = 2 ^ 8 - 1 := rfl
  rw [UInt64.toNat_and,UInt64.toNat_xor,UInt8.toNat_toUInt64,mask,Nat.and_two_pow_sub_one_eq_mod,same,
    BitVec.toNat_xor,BitVec.toNat_ofNat,Nat.mod_eq_of_lt small]

/-- A turn of the loop takes in the eight bits of its byte. -/
theorem turn_register (r : BitVec 32) (same : crc32val.toNat = r.toNat) (byte : UInt8) :
    (turn crc32val byte).toNat = (register polynomial r (bits 8 byte.toNat)).toNat := by
  have inside : (r ^^^ BitVec.ofNat 32 byte.toNat).toNat % 2 ^ 8 < 2 ^ 8 := Nat.mod_lt _ (by decide)
  have shifted : (crc32val >>> 8).toNat = (r >>> 8).toNat := by
    rw [UInt64.toNat_shiftRight,same,BitVec.toNat_ushiftRight]
    rfl
  rw [register_word polynomial r (by decide) byte.toNat_lt,turn,turn_index same,UInt64.toNat_xor,
    crc32Tab_entry inside,shifted]
  exact (BitVec.toNat_xor _ _).symm

theorem turns_register (s : List UInt8) (r : BitVec 32) (same : crc32val.toNat = r.toNat) :
    (s.foldl turn crc32val).toNat = (register polynomial r (s.flatMap fun byte => bits 8 byte.toNat)).toNat := by
  induction s generalizing crc32val r with
  | nil => exact same
  | cons byte s ih =>
    rw [List.foldl_cons,ih _ (turn_register r same byte),List.flatMap_cons,register,register,register,
      List.foldl_append]

/-- Whatever the number of bytes, the loop ends with the bitwise CRC of these. -/
theorem crc32_taken (s : List UInt8) (len : UInt32) : (crc32 s len).toNat = (bitwise (s.take len.toNat)).toNat :=
  turns_register (s.take len.toNat) 0 rfl

theorem accumulators_last (s : List UInt8) (len : UInt32) : (accumulators s len).getLast? = some (crc32 s len) :=
  List.getLast?_scanl

theorem accumulators_lt (s : List UInt8) (len : UInt32) :
    ∀ crc32val ∈ accumulators s len, crc32val.toNat < 2 ^ 32 := by
  intro crc32val member
  obtain ⟨i,_,rfl⟩ := List.mem_iff_getElem.mp member
  simp only [accumulators,List.getElem_scanl]
  rw [turns_register _ 0 rfl]
  exact BitVec.isLt _

/-- The table-driven CRC is the bitwise one, and its 64-bit accumulator, which it returns at the
end, never has more than 32 bits. -/
theorem crc32_eq_bitwise (s : List UInt8) (short : s.length < 2 ^ 32) :
    (crc32 s (UInt32.ofNat s.length)).toNat = (bitwise s).toNat ∧
    (accumulators s (UInt32.ofNat s.length)).getLast? = some (crc32 s (UInt32.ofNat s.length)) ∧
    ∀ crc32val ∈ accumulators s (UInt32.ofNat s.length), crc32val.toNat < 2 ^ 32 := by
  refine ⟨?_,accumulators_last s _,accumulators_lt s _⟩
  have whole : s.take (UInt32.ofNat s.length).toNat = s := by
    rw [UInt32.toNat_ofNat',Nat.mod_eq_of_lt short,List.take_length]
  rw [crc32_taken,whole]

/-- The digits 1 to 9. -/
def digits : List UInt8 := [49,50,51,52,53,54,55,56,57]

theorem digits_checksum : bitwise digits = 0x2DFD2D88 := by
  have same := (crc32_eq_bitwise digits (by decide)).1
  apply BitVec.eq_of_toNat_eq
  rw [← same]
  decide +kernel

end Sizigy.Checksum
