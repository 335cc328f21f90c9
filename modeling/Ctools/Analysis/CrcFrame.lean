import Ctools.Analysis.CrcTable

/-!
# A frame that carries its CRC

Two bytes after a message are 16 bits, as many as the register holds, so they
clear the register exactly when they are its contents
(`crcBits_eq_zero_iff`): its high byte first, then its low byte.
-/

set_option autoImplicit false

namespace Ctools.Analysis

open Ctools.Library Ctools.Program Ctools.Interface

/-- The bits of two bytes, at the top of the register, fill it with them. -/
theorem topBits_pair (hi lo : UInt8) :
    topBits 16 (byteBits hi ++ byteBits lo) = hi.toBitVec ++ lo.toBitVec := by
  apply BitVec.eq_of_getMsbD_eq
  intro i hlt
  rw [getMsbD_topBits _ hlt, BitVec.getMsbD_append]
  by_cases hhigh : i < 8
  · simp [byteBits, List.getD, List.getElem?_append_left, hhigh]
  · simp [byteBits, List.getD, List.getElem?_append_right, show i - 8 < 8 by omega,
      show 8 ≤ i by omega]

/-- A register is two given bytes exactly when they are its high and its low byte. -/
theorem register_eq_pair (crc : UInt16) (hi lo : UInt8) :
    crc.toBitVec = hi.toBitVec ++ lo.toBitVec ↔ hi = (crc >>> 8).toUInt8 ∧ lo = crc.toUInt8 := by
  have happend : (hi.toBitVec ++ lo.toBitVec).toNat = hi.toNat * 256 + lo.toNat := by
    rw [BitVec.toNat_append, ← Nat.shiftLeft_add_eq_or_of_lt lo.toBitVec.isLt, Nat.shiftLeft_eq]
    rfl
  have hhigh : ((crc >>> 8).toUInt8).toNat = crc.toNat / 256 := by
    have hlt := crc.toNat_lt
    rw [UInt16.toNat_toUInt8, UInt16.toNat_shiftRight]
    simp only [UInt16.reduceToNat, Nat.reduceMod, Nat.shiftRight_eq_div_pow]
    omega
  have hlow : crc.toUInt8.toNat = crc.toNat % 256 := by
    rw [UInt16.toNat_toUInt8]
  have hlo := lo.toNat_lt
  rw [← BitVec.toNat_inj, happend, UInt16.toNat_toBitVec, ← UInt8.toNat_inj, ← UInt8.toNat_inj,
    hhigh, hlow]
  omega

/-- Two more bytes leave zero exactly when they are the register's. -/
theorem serial_pair_eq_zero (crc : UInt16) (hi lo : UInt8) :
    crc16Serial crc [hi, lo] = 0 ↔ hi = (crc >>> 8).toUInt8 ∧ lo = crc.toUInt8 := by
  have hbits : (byteBits hi ++ byteBits lo).length ≤ 16 := by simp
  have hresidue := crcBits_eq_zero_iff crc16Poly (by decide) hbits crc.toBitVec
  rw [topBits_pair, register_eq_pair] at hresidue
  rw [← hresidue, ← UInt16.toBitVec_inj]
  simp [crc16Serial]

end Ctools.Analysis

open Ctools.Program in
/-- **A frame that ends in its CRC is recognised exactly.**  For every start,
message and two bytes after it, `crc_16bits_update` over all of them gives zero
if and only if the two bytes are the high and the low byte of its result for
the message; in one call each, or with the message and the frame cut into
however many calls, as the 32-bit `len` may ask.
SOURCE: crc.c:60-73 -/
theorem Ctools.Analysis.update_frame_eq_zero_iff (init : UInt16) (msg : List UInt8) (hi lo : UInt8)
    (parts frame : List (List UInt8)) (hparts : parts.flatten = msg)
    (hframe : frame.flatten = msg ++ [hi, lo])
    (hlen : ∀ chunk ∈ parts ++ frame, chunk.length < 2 ^ 32) :
    ∃ crc residue,
      parts.foldlM (fun crc chunk => crc16bitsUpdate crc chunk (UInt32.ofNat chunk.length)) init =
        some crc ∧
      frame.foldlM (fun crc chunk => crc16bitsUpdate crc chunk (UInt32.ofNat chunk.length)) init =
        some residue ∧
      (residue = 0 ↔ hi = (crc >>> 8).toUInt8 ∧ lo = crc.toUInt8) := by
  rw [List.forall_mem_append] at hlen
  have hmsg := Ctools.Analysis.foldlM_update_eq init parts hlen.1
  have hwhole := Ctools.Analysis.foldlM_update_eq init frame hlen.2
  rw [hparts] at hmsg
  rw [hframe, Ctools.Interface.crc16Serial_append] at hwhole
  exact ⟨_, _, hmsg, hwhole, Ctools.Analysis.serial_pair_eq_zero _ hi lo⟩

open Ctools.Program in
/-- The message in one call, the frame in one call. -/
theorem Ctools.Analysis.update_frame_eq_zero_iff_whole :
    ∃ crc residue,
      [[0x31, 0x32]].foldlM
        (fun crc chunk => crc16bitsUpdate crc chunk (UInt32.ofNat chunk.length)) 0xffff =
        some crc ∧
      [[0x31, 0x32, 0x3d, 0xba]].foldlM
        (fun crc chunk => crc16bitsUpdate crc chunk (UInt32.ofNat chunk.length)) 0xffff =
        some residue ∧
      (residue = 0 ↔ (0x3d : UInt8) = (crc >>> 8).toUInt8 ∧ (0xba : UInt8) = crc.toUInt8) :=
  update_frame_eq_zero_iff 0xffff [0x31, 0x32] 0x3d 0xba [[0x31, 0x32]]
    [[0x31, 0x32, 0x3d, 0xba]] (by decide) (by decide) (by decide)
