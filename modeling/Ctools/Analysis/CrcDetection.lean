import Ctools.Analysis.CrcTable
import Ctools.Library.CrcErrors

/-!
# Odd and double bit errors are detected

The polynomial of `crc.c` has four terms, so the parity of the register is that of
the bits read, and its top bit comes back to itself after 32767 zeros and not
before (`crc16_period`); `32767 = 7 * 31 * 151`, so three shorter runs are checked.
-/

set_option autoImplicit false

namespace Ctools.Analysis

open Ctools.Library Ctools.Program Ctools.Interface

/-- One zero read by the register. -/
def crc16Zero (crc : BitVec 16) : BitVec 16 := crcBit crc16Poly crc false

/-- The period of the register is no proper divisor of 32767: none divides `32767 / p`. -/
theorem crc16_no_period (p : ℕ) (hp : p.Prime) (hdvd : p ∣ 32767) :
    ¬ Function.IsPeriodicPt crc16Zero (32767 / p) (BitVec.intMin 16) := by
  have hfactors : p = 7 ∨ p = 31 ∨ p = 151 := by
    have hsplit : p ∣ 7 * 31 * 151 := hdvd
    rcases (hp.dvd_mul).mp hsplit with hleft | hright
    · rcases (hp.dvd_mul).mp hleft with h7 | h31
      · exact .inl ((Nat.prime_dvd_prime_iff_eq hp (by norm_num)).mp h7)
      · exact .inr (.inl ((Nat.prime_dvd_prime_iff_eq hp (by norm_num)).mp h31))
    · exact .inr (.inr ((Nat.prime_dvd_prime_iff_eq hp (by norm_num)).mp hright))
  intro hperiod
  have hrun := (isPeriodicPt_iff_crcRun crc16Poly (32767 / p) (BitVec.intMin 16)).mp hperiod
  rcases hfactors with rfl | rfl | rfl
  · exact absurd hrun (by decide +kernel)
  · exact absurd hrun (by decide +kernel)
  · exact absurd hrun (by decide +kernel)

/-- The top bit of the register comes back after 32767 zeros, and not before. -/
theorem crc16_period : Function.minimalPeriod crc16Zero (BitVec.intMin 16) = 32767 := by
  apply minimalPeriod_eq
  · exact (isPeriodicPt_iff_crcRun crc16Poly 32767 (BitVec.intMin 16)).mpr (by decide +kernel)
  · exact crc16_no_period

end Ctools.Analysis

open Ctools.Program Ctools.Interface Ctools.Analysis in
/-- **Odd and double errors are detected.**  Two messages of one length whose bits
differ in an odd number of places, or in two places fewer than 32767 apart, have
different CRCs from every start.
SOURCE: crc.c:60-73 -/
theorem Ctools.Analysis.update_ne_of_errors (init : UInt16) (first second : List UInt8)
    (hlen : first.length = second.length) (hsmall : first.length < 2 ^ 32)
    (herrors : OddErrors first second ∨ DoubleErrors 32767 first second) :
    crc16bitsUpdate init first (UInt32.ofNat first.length) ≠
      crc16bitsUpdate init second (UInt32.ofNat second.length) := by
  have hbits : (messageBits first).length = (messageBits second).length := by
    rw [length_messageBits, length_messageBits, hlen]
  apply update_ne_of_crcBits_ne hlen hsmall
  rcases herrors with hodd | ⟨p, q, hpq, hnear, hdiff⟩
  · exact Ctools.Library.crcBits_ne_of_odd crc16Poly (by decide) hbits hodd init.toBitVec
  · refine Ctools.Library.crcBits_ne_of_double crc16Poly (by decide) hbits hpq ?_ hdiff
        init.toBitVec
    exact crc16_period.symm ▸ hnear

open Ctools.Program Ctools.Interface Ctools.Analysis in
/-- Two errors, in the first and the last bit of three bytes, and three errors. -/
theorem Ctools.Analysis.update_ne_of_errors_few :
    crc16bitsUpdate 7 [0x00, 0x00, 0x00] 3 ≠ crc16bitsUpdate 7 [0x80, 0x00, 0x01] 3 ∧
      crc16bitsUpdate 7 [0x00, 0x00, 0x00] 3 ≠ crc16bitsUpdate 7 [0x80, 0x10, 0x01] 3 := by
  refine ⟨update_ne_of_errors 7 _ _ rfl (by decide) (.inr ⟨0, 23, by decide, by decide, ?_⟩),
    update_ne_of_errors 7 _ _ rfl (by decide) (.inl ⟨1, by decide⟩)⟩
  intro i
  have hall : ∀ i : Fin 24, (messageBits [0x00, 0x00, 0x00])[i.val]? ≠
      (messageBits [0x80, 0x00, 0x01])[i.val]? ↔ i.val = 0 ∨ i.val = 23 := by decide
  by_cases hlt : i < 24
  · exact hall ⟨i, hlt⟩
  · rw [List.getElem?_eq_none (by simpa [length_messageBits] using hlt),
      List.getElem?_eq_none (by simpa [length_messageBits] using hlt)]
    simp
    omega
