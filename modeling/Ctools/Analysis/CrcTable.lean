import Ctools.Program.Crc
import Ctools.Interface.CrcSpec

/-!
# The table-driven CRC is the bit-serial one

One byte through the table is eight bits through the register: the bits are
added to its top (`crcBits_eq_zeros`), the register splits into its high byte,
which the table divides (`crcTable_eq`), and its low byte, which eight zeros
only shift.  By induction the loops compute the bit-serial CRC of their bytes,
and so does any chunking of a message.  The detection of bursts is the
register's (`crcBits_ne_of_burst`).
-/

set_option autoImplicit false

namespace Ctools.Analysis

open Ctools.Library Ctools.Program Ctools.Interface

/-- The table's entries are the remainders of the bytes at the top of the
register, all 256 of them.
SOURCE: crc.c:10-43 -/
theorem crcTable_eq (byte : UInt8) :
    (crcTable.get byte.toFin).toBitVec =
      crcZeros crc16Poly 8 (byte.toBitVec.setWidth 16 <<< 8) := by
  have hall : ∀ i : Fin 256, (crcTable.get i).toBitVec =
      crcZeros crc16Poly 8 ((BitVec.ofNat 8 i.val).setWidth 16 <<< 8) := by
    decide +kernel
  have h := hall byte.toFin
  simpa using h

/-- The bits of a byte, at the top of a register, are the byte in its high half. -/
theorem topBits_byteBits (byte : UInt8) :
    topBits 16 (byteBits byte) = byte.toBitVec.setWidth 16 <<< 8 := by
  apply BitVec.eq_of_getMsbD_eq
  intro i hi
  rw [getMsbD_topBits _ hi]
  by_cases hlow : i < 8
  · simp [byteBits, List.getD, hlow, BitVec.getMsbD_setWidth]
  · simp [byteBits, List.getD, hlow, BitVec.getMsbD_setWidth,
      BitVec.getMsbD_of_ge byte.toBitVec i (not_lt.mp hlow)]

/-- The register with a byte added to its high half, as the sum of the byte the
table is asked for, in the high half, and the low half. -/
theorem split_register (crc : BitVec 16) (byte : BitVec 8) :
    crc ^^^ byte.setWidth 16 <<< 8 =
      ((crc >>> 8).setWidth 8 ^^^ byte).setWidth 16 <<< 8 ^^^ (crc &&& 0x00ff#16) := by
  have hmask : ∀ i : Fin 16, (0x00ff#16).getLsbD i.val = decide (i.val < 8) := by decide
  apply BitVec.eq_of_getLsbD_eq
  intro i hi
  have hm := hmask ⟨i, hi⟩
  simp only [BitVec.getLsbD_xor, BitVec.getLsbD_and, BitVec.getLsbD_shiftLeft,
    BitVec.getLsbD_setWidth, BitVec.getLsbD_ushiftRight, hm]
  by_cases hlow : i < 8
  · simp [hlow]
  · have hhigh : 8 + (i - 8) = i := by omega
    simp [hlow, hi, hhigh, show i - 8 < 16 by omega, show i - 8 < 8 by omega]

/-- **One byte** through the table is its eight bits through the register.
SOURCE: crc.c:51-54, crc.c:66-69 -/
theorem crcByte_eq (crc : UInt16) (byte : UInt8) :
    (crcByte crc byte).toBitVec = crcBits crc16Poly crc.toBitVec (byteBits byte) := by
  have hlow : crcZeros crc16Poly 8 (crc.toBitVec &&& 0x00ff#16) = crc.toBitVec <<< 8 := by
    have hclear : ∀ i < 8, (crc.toBitVec &&& 0x00ff#16).getMsbD i = false := by
      have hmask : ∀ i : Fin 8, (0x00ff#16).getMsbD i.val = false := by decide
      intro i hi
      rw [BitVec.getMsbD_and, hmask ⟨i, hi⟩, Bool.and_false]
    rw [crcZeros_eq_shiftLeft _ hclear]
    apply BitVec.eq_of_getLsbD_eq
    intro i hi
    have hmask : ∀ i : Fin 8, (0x00ff#16).getLsbD i.val = true := by decide
    by_cases hshort : i < 8
    · simp [hshort]
    · have hm := hmask ⟨i - 8, by omega⟩
      simp only [BitVec.getLsbD_shiftLeft, BitVec.getLsbD_and, hm, Bool.and_true]
  have hdat : ((crc >>> 8).toUInt8 ^^^ byte).toBitVec =
      (crc.toBitVec >>> 8).setWidth 8 ^^^ byte.toBitVec := by
    simp
  calc (crcByte crc byte).toBitVec
      = crc.toBitVec <<< 8 ^^^
          (crcTable.get ((crc >>> 8).toUInt8 ^^^ byte).toFin).toBitVec := by
        simp [crcByte]
    _ = crcZeros crc16Poly 8 (crc.toBitVec &&& 0x00ff#16) ^^^
          crcZeros crc16Poly 8
              (((crc.toBitVec >>> 8).setWidth 8 ^^^ byte.toBitVec).setWidth 16 <<< 8) := by
        rw [hlow, crcTable_eq, hdat]
    _ = crcZeros crc16Poly 8 (crc.toBitVec ^^^ topBits 16 (byteBits byte)) := by
        rw [← crcZeros_xor, BitVec.xor_comm, ← split_register, topBits_byteBits]
    _ = crcBits crc16Poly crc.toBitVec (byteBits byte) :=
        (crcBits_eq_zeros crc16Poly (by simp) crc.toBitVec).symm

/-- **The loop** over all the bytes of a message computes its bit-serial CRC.
SOURCE: crc.c:50-55, crc.c:65-70 -/
theorem crcLoop_eq (msg : List UInt8) (crc : UInt16) :
    crcLoop msg.length msg crc = some (crc16Serial crc msg) := by
  induction msg generalizing crc with
  | nil => rfl
  | cons byte msg ih =>
    rw [List.length_cons, crcLoop, ih]
    simp [crc16Serial, crcByte_eq, crcBits_append]

/-- `crc_16bits_update` on a whole message.
SOURCE: crc.c:60-73 -/
theorem crc16bitsUpdate_eq (init : UInt16) (msg : List UInt8) (hlen : msg.length < 2 ^ 32) :
    crc16bitsUpdate init msg (UInt32.ofNat msg.length) = some (crc16Serial init msg) := by
  rw [crc16bitsUpdate, UInt32.toNat_ofNat_of_lt' hlen, crcLoop_eq]

/-- `crc_16bits_compute` starts at zero.
SOURCE: crc.c:45-58 -/
theorem crc16bitsCompute_eq (msg : List UInt8) (hlen : msg.length < 2 ^ 32) :
    crc16bitsCompute msg (UInt32.ofNat msg.length) = some (crc16Serial 0 msg) := by
  rw [crc16bitsCompute, UInt32.toNat_ofNat_of_lt' hlen, crcLoop_eq]

/-- Chunk after chunk, each from the result of the one before, and each of a
length that `len` can hold.
SOURCE: crc.c:60-73 -/
theorem foldlM_update_eq (init : UInt16) (chunks : List (List UInt8))
    (hlen : ∀ chunk ∈ chunks, chunk.length < 2 ^ 32) :
    chunks.foldlM (fun crc chunk => crc16bitsUpdate crc chunk (UInt32.ofNat chunk.length)) init =
      some (crc16Serial init chunks.flatten) := by
  induction chunks generalizing init with
  | nil => rfl
  | cons chunk chunks ih =>
    rw [List.forall_mem_cons] at hlen
    rw [List.foldlM_cons, crc16bitsUpdate_eq init chunk hlen.1, Option.bind_eq_bind,
      Option.bind_some, ih _ hlen.2, List.flatten_cons, crc16Serial_append]

/-- Different registers behind the loop are different results.
SOURCE: crc.c:60-73 -/
theorem update_ne_of_crcBits_ne {init : UInt16} {first second : List UInt8}
    (hlen : first.length = second.length) (hsmall : first.length < 2 ^ 32)
    (hne : crcBits crc16Poly init.toBitVec (messageBits first) ≠
      crcBits crc16Poly init.toBitVec (messageBits second)) :
    crc16bitsUpdate init first (UInt32.ofNat first.length) ≠
      crc16bitsUpdate init second (UInt32.ofNat second.length) := by
  rw [crc16bitsUpdate_eq init first hsmall, crc16bitsUpdate_eq init second (hlen ▸ hsmall)]
  intro h
  exact hne (congrArg UInt16.toBitVec (Option.some.inj h))

end Ctools.Analysis

open Ctools.Program Ctools.Interface in
/-- **The table-driven CRC is the bit-serial one under any chunking.**  For
every start, every message below `2 ^ 32` bytes and every way to cut it into
chunks, feeding the chunks through `crc_16bits_update` gives the bit-at-a-time
CRC-16 of the whole message; `crc_16bits_compute` gives the one started at zero.
SOURCE: crc.c:10-73 -/
theorem Ctools.Analysis.crc_chunks_eq_serial (init : UInt16) (chunks : List (List UInt8))
    (hlen : chunks.flatten.length < 2 ^ 32) :
    chunks.foldlM (fun crc chunk => crc16bitsUpdate crc chunk (UInt32.ofNat chunk.length)) init =
        some (crc16Serial init chunks.flatten) ∧
      crc16bitsCompute chunks.flatten (UInt32.ofNat chunks.flatten.length) =
        some (crc16Serial 0 chunks.flatten) := by
  have hchunks : ∀ chunk ∈ chunks, chunk.length < 2 ^ 32 := by
    intro chunk hmem
    exact lt_of_le_of_lt (List.sublist_flatten_of_mem hmem).length_le hlen
  exact ⟨Ctools.Analysis.foldlM_update_eq init chunks hchunks,
    Ctools.Analysis.crc16bitsCompute_eq _ hlen⟩

open Ctools.Program Ctools.Interface in
/-- Three bytes in an empty chunk, a chunk of two and a chunk of one. -/
theorem Ctools.Analysis.crc_chunks_eq_serial_three :
    [[], [0x31, 0x32], [0x33]].foldlM
        (fun crc chunk => crc16bitsUpdate crc chunk (UInt32.ofNat chunk.length)) 0xffff =
        some (crc16Serial 0xffff [0x31, 0x32, 0x33]) ∧
      crc16bitsCompute [0x31, 0x32, 0x33] 3 = some (crc16Serial 0 [0x31, 0x32, 0x33]) :=
  crc_chunks_eq_serial 0xffff [[], [0x31, 0x32], [0x33]] (by decide)

open Ctools.Program Ctools.Interface in
/-- **Every short burst is detected.**  Two messages of one length that differ,
all of whose differing bits lie within 16 consecutive positions of the bit
stream, have different CRCs from every start.
SOURCE: crc.c:60-73 -/
theorem Ctools.Analysis.update_ne_of_burst (init : UInt16) (first second : List UInt8)
    (hlen : first.length = second.length) (hsmall : first.length < 2 ^ 32)
    (hne : first ≠ second) (p : ℕ)
    (hburst : ∀ i : ℕ, (messageBits first)[i]? ≠ (messageBits second)[i]? → p ≤ i ∧ i < p + 16) :
    crc16bitsUpdate init first (UInt32.ofNat first.length) ≠
      crc16bitsUpdate init second (UInt32.ofNat second.length) := by
  have hbits : (messageBits first).length = (messageBits second).length := by
    rw [length_messageBits, length_messageBits, hlen]
  apply Ctools.Analysis.update_ne_of_crcBits_ne hlen hsmall
  exact Ctools.Library.crcBits_ne_of_burst crc16Poly (by decide) hbits
    (messageBits_injective.ne hne) hburst init.toBitVec

open Ctools.Program Ctools.Interface in
/-- A burst from the last bit of the first byte to the first bit of the third. -/
theorem Ctools.Analysis.update_ne_of_burst_straddling :
    crc16bitsUpdate 0 [0x00, 0x00, 0x00] 3 ≠ crc16bitsUpdate 0 [0x01, 0xff, 0x80] 3 := by
  refine update_ne_of_burst 0 [0x00, 0x00, 0x00] [0x01, 0xff, 0x80] rfl (by decide) (by decide) 7 ?_
  intro i hi
  have hall : ∀ i : Fin 24, (messageBits [0x00, 0x00, 0x00])[i.val]? ≠
      (messageBits [0x01, 0xff, 0x80])[i.val]? → 7 ≤ i.val ∧ i.val < 7 + 16 := by decide
  by_cases hlt : i < 24
  · exact hall ⟨i, hlt⟩ hi
  · rw [List.getElem?_eq_none (by simpa [length_messageBits] using hlt),
      List.getElem?_eq_none (by simpa [length_messageBits] using hlt)] at hi
    exact absurd rfl hi
