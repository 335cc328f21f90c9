import Ctools.Library.BitSerialCrc

/-!
# The bit-at-a-time CRC-16

The reference the table is compared with: polynomial `0x1021`, most significant
bit of each byte first, no reflection, no final exclusive or.
-/

set_option autoImplicit false

namespace Ctools.Interface

open Ctools.Library

/-- The polynomial, without its leading term. -/
def crc16Poly : BitVec 16 := 0x1021#16

/-- The bits of a byte, most significant first. -/
def byteBits (byte : UInt8) : List Bool := (List.range 8).map byte.toBitVec.getMsbD

/-- The bit stream of a message. -/
def messageBits (msg : List UInt8) : List Bool := msg.flatMap byteBits

/-- The CRC-16 of a message, bit by bit, started at `init`. -/
def crc16Serial (init : UInt16) (msg : List UInt8) : UInt16 :=
  UInt16.ofBitVec (crcBits crc16Poly init.toBitVec (messageBits msg))

/-- The messages' bits differ in an odd number of places. -/
def OddErrors (first second : List UInt8) : Prop :=
  Odd ((List.zipWith xor (messageBits first) (messageBits second)).count true)

/-- The messages' bits differ in exactly two places, fewer than `n` apart. -/
def DoubleErrors (n : ℕ) (first second : List UInt8) : Prop :=
  ∃ p q, p < q ∧ q - p < n ∧
    ∀ i : ℕ, (messageBits first)[i]? ≠ (messageBits second)[i]? ↔ i = p ∨ i = q

/-- A byte has eight bits. -/
@[simp] theorem length_byteBits (byte : UInt8) : (byteBits byte).length = 8 := rfl

/-- The empty message has no bits. -/
@[simp] theorem messageBits_nil : messageBits [] = [] := rfl

/-- The bits of the first byte come first. -/
@[simp] theorem messageBits_cons (byte : UInt8) (msg : List UInt8) :
    messageBits (byte :: msg) = byteBits byte ++ messageBits msg := rfl

/-- A message in two pieces. -/
theorem messageBits_append (first second : List UInt8) :
    messageBits (first ++ second) = messageBits first ++ messageBits second :=
  List.flatMap_append

/-- A message has eight bits for each byte. -/
theorem length_messageBits (msg : List UInt8) : (messageBits msg).length = 8 * msg.length := by
  induction msg with
  | nil => rfl
  | cons byte msg ih =>
    simp only [messageBits_cons, List.length_append, length_byteBits, ih, List.length_cons]
    omega

/-- The bits of a byte determine it. -/
theorem byteBits_injective : Function.Injective byteBits := by
  intro a b h
  apply UInt8.toBitVec_inj.mp
  apply BitVec.eq_of_getMsbD_eq
  intro i hi
  have hget := congrArg (fun bits => bits[i]?) h
  simpa [byteBits, hi] using hget

/-- The bits of a message determine it. -/
theorem messageBits_injective : Function.Injective messageBits := by
  intro first
  induction first with
  | nil =>
    intro second h
    have hlen := congrArg List.length h
    rw [length_messageBits, length_messageBits, List.length_nil] at hlen
    exact (List.eq_nil_of_length_eq_zero (by omega)).symm
  | cons byte first ih =>
    intro second h
    cases second with
    | nil => simp [byteBits] at h
    | cons byte' second =>
      obtain ⟨hbyte, hrest⟩ := List.append_inj h rfl
      rw [byteBits_injective hbyte, ih hrest]

/-- A message may be read in two parts. -/
theorem crc16Serial_append (init : UInt16) (first second : List UInt8) :
    crc16Serial init (first ++ second) = crc16Serial (crc16Serial init first) second := by
  simp [crc16Serial, messageBits_append, crcBits_append]

end Ctools.Interface
